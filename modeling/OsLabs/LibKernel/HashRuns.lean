import OsLabs.LibKernel.Hash

/-!
# Hash tables are finite sets

In every table that calls of `lib/kernel/hash.c` can lead to, no two elements are equal, each one is in the bucket of its hash value,
and the calls do to the set of the elements what they should (`hash_refines_set`). Elements are equal if neither is less
than the other.

The calls have to respect that an element that is inserted, and a block that `malloc` returns, is no part of the table (`Allowed`).
That memory has `2 ^ 32` bytes limits the number of elements (`Inv.card_lt`), so that neither the number of elements nor the size of
the buckets wraps around.
-/

namespace OsLabs.LibKernel

open Lib Function

/-! ## Calls -/

inductive HashOp where
  | insert (new : ℕ) (malloc : ℕ → Option ℕ)
  | replace (new : ℕ) (malloc : ℕ → Option ℕ)
  | find (e : ℕ)
  | delete (e : ℕ) (malloc : ℕ → Option ℕ)
  | clear (destructor : Option (Words → ℕ → Words))

/-- One call, with what it returns; the inner `none` is `NULL`. -/
def hashExec (hash : ℕ → UInt32) (less : ℕ → ℕ → Bool) (fuel : ℕ) (mem : Words) (h : Hash) :
    HashOp → Option (Words × Hash × Option ℕ)
  | .insert new malloc => hashInsert hash less malloc fuel mem h new
  | .replace new malloc => hashReplace hash less malloc fuel mem h new
  | .find e => (hashFind hash less fuel mem h e).map fun r => (mem, h, r)
  | .delete e malloc => hashDelete hash less malloc fuel mem h e
  | .clear destructor => (hashClear destructor fuel mem h).map fun (mem, h) => (mem, h, none)

/-- The block is no part of the table. -/
structure Away (h : Hash) (S : Finset ℕ) (a size : ℕ) : Prop where
  ne_zero : a ≠ 0
  bound : a + size ≤ 2 ^ 32
  buckets : a + size ≤ h.buckets ∨ h.buckets + 16 * h.bucketCnt ≤ a
  elems : ∀ x ∈ S, a + size ≤ x ∨ x + 8 ≤ a

/-- The call is allowed in a table with the elements `S`. -/
def Allowed (h : Hash) (S : Finset ℕ) : HashOp → Prop
  | .insert new malloc | .replace new malloc =>
    Away h S new 8 ∧ ∀ size a, malloc size = some a → Away h (insert new S) a size
  | .find _ => True
  | .delete _ malloc => ∀ size a, malloc size = some a → Away h S a size
  | .clear destructor => ∀ d ∈ destructor, SafeDestructor d

/-- Neither is less than the other. -/
def Equal (less : ℕ → ℕ → Bool) (x y : ℕ) : Prop :=
  ¬less x y ∧ ¬less y x

/-- `less` is a strict weak order, and elements that are equal have the same hash value. -/
structure Hashing (hash : ℕ → UInt32) (less : ℕ → ℕ → Bool) : Prop where
  irrefl : ∀ x, ¬less x x
  trans : ∀ x y z, less x y → less y z → less x z
  equal_trans : ∀ x y z, Equal less x y → Equal less y z → Equal less x z
  hash_eq : ∀ x y, Equal less x y → hash x = hash y

/-- The result of a search: the element of the set that is equal to `e`, if there is one. -/
def Found (less : ℕ → ℕ → Bool) (S : Finset ℕ) (e : ℕ) (r : Option ℕ) : Prop :=
  ∀ x, r = some x ↔ x ∈ S ∧ Equal less x e

/-- What a call should do to the set of the elements, and return. -/
def SetStep (less : ℕ → ℕ → Bool) (S : Finset ℕ) : HashOp → Option ℕ → Finset ℕ → Prop
  | .insert new _, r, S' => Found less S new r ∧ S' = r.elim (insert new S) fun _ => S
  | .replace new _, r, S' => Found less S new r ∧ S' = insert new (r.elim S S.erase)
  | .find e, r, S' => Found less S e r ∧ S' = S
  | .delete e _, r, S' => Found less S e r ∧ S' = r.elim S S.erase
  | .clear _, r, S' => r = none ∧ S' = ∅

/-- The buckets have the elements `S`. -/
def Elements (mem : Words) (h : Hash) (S : Finset ℕ) : Prop :=
  ∃ B : ℕ → List ℕ, (∀ i < h.bucketCnt, IsList mem (h.buckets + 16 * i) (B i)) ∧
    ∀ x, x ∈ S ↔ ∃ i < h.bucketCnt, x ∈ B i

section

variable (hash : ℕ → UInt32) (less : ℕ → ℕ → Bool)

/-- The tables that calls lead to. -/
inductive Reach : Words → Hash → Prop where
  | init {malloc : ℕ → Option ℕ} {mem mem' : Words} {h : Hash}
    (hmalloc : ∀ size a, malloc size = some a → a ≠ 0 ∧ a + size ≤ 2 ^ 32)
    (hinit : Returns (fun fuel => hashInit malloc fuel mem) (some (mem', h))) : Reach mem' h
  | call {mem mem' : Words} {h h' : Hash} {S : Finset ℕ} {op : HashOp} {r : Option ℕ} (hreach : Reach mem h)
    (hS : Elements mem h S) (hallowed : Allowed h S op)
    (hexec : Returns (fun fuel => hashExec hash less fuel mem h op) (mem', h', r)) : Reach mem' h'

/-- Memory holds a table with the elements `S`. -/
structure IsTable (mem : Words) (h : Hash) (S : Finset ℕ) : Prop where
  power : ∃ k, h.bucketCnt = 2 ^ k
  four_le : 4 ≤ h.bucketCnt
  elemCnt : h.elemCnt = S.card
  distinct : ∀ x ∈ S, ∀ y ∈ S, Equal less x y → x = y
  buckets : ∃ B : ℕ → List ℕ, (∀ i < h.bucketCnt, IsList mem (h.buckets + 16 * i) (B i)) ∧
    (∀ x, x ∈ S ↔ ∃ i < h.bucketCnt, x ∈ B i) ∧
    ∀ i < h.bucketCnt, ∀ x ∈ B i, findBucket hash h x = h.buckets + 16 * i

/-- What the calls keep. -/
structure Inv (mem : Words) (h : Hash) (S : Finset ℕ) (B : ℕ → List ℕ) : Prop where
  holds : Holds mem (bucketLists h.buckets h.bucketCnt B)
  chained : Chained (Equal less) (bucketIndex hash h.bucketCnt) h.bucketCnt B
  contents : contents h.bucketCnt B = S.val
  elemCnt : h.elemCnt = S.card
  power : ∃ k, 2 ≤ k ∧ h.bucketCnt = 2 ^ k
  bound : h.buckets + 16 * h.bucketCnt ≤ 2 ^ 32
  elems : ∀ x ∈ S, x + 8 ≤ 2 ^ 32

end

section

variable {hash : ℕ → UInt32} {less : ℕ → ℕ → Bool} {mem : Words} {h : Hash} {S : Finset ℕ} {B : ℕ → List ℕ} {new : ℕ}

lemma Hashing.equivalence (hgood : Hashing hash less) : Equivalence (Equal less) where
  refl x := ⟨hgood.irrefl x, hgood.irrefl x⟩
  symm hxy := And.symm hxy
  trans {x y z} := hgood.equal_trans x y z

lemma Hashing.bucketIndex_eq (hgood : Hashing hash less) (n x y : ℕ) (hxy : Equal less x y) :
    bucketIndex hash n x = bucketIndex hash n y := by
  rw [bucketIndex, bucketIndex, hgood.hash_eq x y hxy]

lemma equal_iff {e x : ℕ} : equal less e x = true ↔ Equal less x e := by
  simp [equal, Equal]

/-! ## The invariant -/

namespace Inv

section Inv

variable (hi : Inv hash less mem h S B)
include hi

lemma four_le : 4 ≤ h.bucketCnt := by
  obtain ⟨k, hk, hcnt⟩ := hi.power
  rw [hcnt]
  exact Nat.pow_le_pow_right (show 0 < 2 by decide) hk

lemma mem_iff {x : ℕ} : x ∈ S ↔ ∃ i < h.bucketCnt, x ∈ B i := by
  rw [← mem_contents, hi.contents]
  rfl

lemma bucketIndex_lt (e : ℕ) : bucketIndex hash h.bucketCnt e < h.bucketCnt := by
  obtain ⟨k, -, hcnt⟩ := hi.power
  rw [hcnt]
  exact LibKernel.bucketIndex_lt hash k e

omit hi in
lemma isTable (hgood : Hashing hash less) (hi : Inv hash less mem h S B) : IsTable hash less mem h S where
  power := by
    obtain ⟨k, -, hcnt⟩ := hi.power
    exact ⟨k, hcnt⟩
  four_le := hi.four_le
  elemCnt := hi.elemCnt
  distinct x hx y hy hxy := by
    have hmem (z : ℕ) (hz : z ∈ S) : z ∈ Lib.contents h.bucketCnt B := by
      rw [hi.contents]
      exact hz
    exact hi.chained.eq_of_rel hgood.equivalence (hgood.bucketIndex_eq _) (hmem x hx) (hmem y hy) hxy
  buckets := by
    refine ⟨B, fun i hlt => hi.holds.list _ _ (bucketLists_at hlt), fun x => hi.mem_iff, fun i hlt x hx => ?_⟩
    rw [← hi.chained.placed i hlt x hx]
    rfl

/-- The elements are what the buckets have. -/
lemma eq_of_elements {S' : Finset ℕ} (hS' : Elements mem h S') : S' = S := by
  obtain ⟨B', hlists, hmem⟩ := hS'
  ext x
  rw [hmem, hi.mem_iff]
  have hsame (i : ℕ) (hlt : i < h.bucketCnt) : B' i = B i :=
    (hlists i hlt).unique (hi.holds.list _ _ (bucketLists_at hlt))
  constructor
  · rintro ⟨i, hlt, hx⟩
    exact ⟨i, hlt, hsame i hlt ▸ hx⟩
  · rintro ⟨i, hlt, hx⟩
    exact ⟨i, hlt, (hsame i hlt).symm ▸ hx⟩

/-- A block that is no part of the table has no nodes in it. -/
lemma unused {a size : ℕ} (ha : Away h S a size) :
    Unused (bucketLists h.buckets h.bucketCnt B) a size := by
  refine ⟨ha.ne_zero, fun l xs hl y hy => ?_⟩
  obtain ⟨i, hlt, rfl, rfl⟩ := bucketLists_eq_some.mp hl
  have hbuckets := ha.buckets
  rcases mem_nodes_bucket hlt hy with hy | hy
  · omega
  · rw [hi.contents] at hy
    exact ha.elems y hy

lemma fresh (hnew : Away h S new 8) :
    Fresh (bucketLists h.buckets h.bucketCnt B) new :=
  hi.unused hnew

/-- Memory limits the number of elements. -/
lemma card_lt : S.card < 2 ^ 29 := by
  have hfour := hi.four_le
  have hbound := hi.bound
  -- the elements and the first sentinel do not overlap
  have hnode (x : ℕ) (hx : x ∈ insert h.buckets S) : ∃ i < h.bucketCnt, x ∈ nodes (h.buckets + 16 * i) (B i) := by
    rcases Finset.mem_insert.mp hx with rfl | hx
    · exact ⟨0, by omega, mem_nodes.mpr (Or.inl rfl)⟩
    · obtain ⟨i, hlt, hx⟩ := hi.mem_iff.mp hx
      exact ⟨i, hlt, mem_nodes.mpr (Or.inr (Or.inl hx))⟩
  have hapart (x : ℕ) (hx : x ∈ insert h.buckets S) (y : ℕ) (hy : y ∈ insert h.buckets S) (hne : x ≠ y) : Apart x y := by
    obtain ⟨i, hi', hx⟩ := hnode x hx
    obtain ⟨j, hj, hy⟩ := hnode y hy
    exact hi.holds.apart_of_ne (bucketLists_at hi') (bucketLists_at hj) hx hy hne
  have hout : h.buckets ∉ S := by
    intro hmem
    obtain ⟨i, hlt, hx⟩ := hi.mem_iff.mp hmem
    by_cases hzero : i = 0
    · subst hzero
      have hnodup := nodup_of_apart (hi.holds.list _ _ (bucketLists_at hlt)).apart
      exact (List.nodup_cons.mp hnodup).1 (List.mem_append_left _ hx)
    · have happart := hi.holds.apart _ _ _ _ (bucketLists_at (show 0 < h.bucketCnt by omega)) (bucketLists_at hlt) (by omega)
        h.buckets (mem_nodes.mpr (Or.inl rfl)) h.buckets (mem_nodes.mpr (Or.inr (Or.inl hx)))
      unfold Apart at happart
      omega
  have hcard : (insert h.buckets S).card ≤ (Finset.range (2 ^ 29)).card := by
    apply Finset.card_le_card_of_injOn (· / 8)
    · intro x hx
      have hx8 : x + 8 ≤ 2 ^ 32 := by
        rcases Finset.mem_insert.mp hx with rfl | hx
        · omega
        · exact hi.elems x hx
      simp only [Finset.coe_range, Set.mem_Iio]
      omega
    · intro x hx y hy hxy
      by_contra hne
      have := hapart x hx y hy hne
      unfold Apart at this
      dsimp only at hxy
      omega
  rw [Finset.card_insert_of_notMem hout, Finset.card_range] at hcard
  omega

/-! ## The steps of the calls -/

omit hi in
/-- The search in the bucket of an element. -/
lemma find (hgood : Hashing hash less) (hi : Inv hash less mem h S B) (e : ℕ) :
    ∃ r, Returns (fun fuel => findElem less fuel mem (findBucket hash h e) e) r ∧ Found less S e r := by
  have hlt := hi.bucketIndex_lt e
  refine ⟨_, findElem_spec (hi.holds.list _ _ (bucketLists_at hlt)) e, fun x => ?_⟩
  rw [hi.chained.find?_eq_some hgood.equivalence (hgood.bucketIndex_eq _) (fun y => equal_iff) hlt, hi.contents]
  rfl

/-- A new element, of which no equal one is there. -/
lemma insertElem (hnew : Away h S new 8)
    (hnone : ∀ x ∈ S, ¬Equal less x new) :
    ∃ mem' n B', LibKernel.insertElem mem h (findBucket hash h new) new = some (mem', { h with elemCnt := n }) ∧
      Inv hash less mem' { h with elemCnt := n } (insert new S) B' := by
  have hlt := hi.bucketIndex_lt new
  obtain ⟨mem', hpush, hholds⟩ := hi.holds.pushFront (bucketLists_at hlt) (hi.fresh hnew)
  rw [update_bucketLists hlt] at hholds
  have hout : new ∉ S := by
    intro hmem
    have := hnew.elems new hmem
    omega
  have hcard := hi.card_lt
  refine ⟨mem', S.card + 1, pushFront (bucketIndex hash h.bucketCnt) B new, ?_, ?_⟩
  · have hcnt : (h.elemCnt + 1) % 2 ^ 32 = S.card + 1 := by
      rw [hi.elemCnt]
      omega
    rw [LibKernel.insertElem, show findBucket hash h new = h.buckets + 16 * bucketIndex hash h.bucketCnt new from rfl, hpush,
      hcnt]
    rfl
  · constructor
    · exact hholds
    · refine hi.chained.push hlt fun x hx hequal => hnone x ?_ (And.symm hequal)
      rw [hi.contents] at hx
      exact hx
    · show Lib.contents h.bucketCnt (pushFront (bucketIndex hash h.bucketCnt) B new) = _
      rw [contents_pushFront hlt, hi.contents, Finset.insert_val_of_notMem hout]
    · exact (Finset.card_insert_of_notMem hout).symm
    · exact hi.power
    · exact hi.bound
    · intro x hx
      rcases Finset.mem_insert.mp hx with rfl | hx
      · exact hnew.bound
      · exact hi.elems x hx

/-- An element is taken out. -/
lemma removeElem {x : ℕ} (hx : x ∈ S) :
    ∃ mem' n B', LibKernel.removeElem mem h x = some (mem', { h with elemCnt := n }) ∧
      Inv hash less mem' { h with elemCnt := n } (S.erase x) B' := by
  obtain ⟨i, hlt, hxi⟩ := hi.mem_iff.mp hx
  obtain ⟨as, bs, hsplit⟩ := List.append_of_mem hxi
  have hl : bucketLists h.buckets h.bucketCnt B (h.buckets + 16 * i) = some (as ++ [x] ++ bs) := by
    rw [bucketLists_at hlt, hsplit]
    simp
  obtain ⟨q, hq⟩ := exists_at (h.buckets + 16 * i) bs
  obtain ⟨mem', hremove, -, hholds, -⟩ := hi.holds.remove hl hq
  rw [update_bucketLists hlt] at hholds
  have hcard := hi.card_lt
  have hpos : 0 < S.card := Finset.card_pos.mpr ⟨x, hx⟩
  refine ⟨mem', S.card - 1, update B i (as ++ bs), ?_, ?_⟩
  · have hcnt : (h.elemCnt + 2 ^ 32 - 1) % 2 ^ 32 = S.card - 1 := by
      rw [hi.elemCnt]
      omega
    rw [LibKernel.removeElem, hremove, hcnt]
    rfl
  · constructor
    · exact hholds
    · refine hi.chained.sublist hlt ?_
      rw [hsplit]
      exact (List.sublist_cons_self x bs).append_left as
    · show Lib.contents h.bucketCnt (update B i (as ++ bs)) = _
      have hbucket : (B i : Multiset ℕ) = x ::ₘ ((as ++ bs : List ℕ) : Multiset ℕ) := by
        rw [hsplit]
        exact Multiset.coe_eq_coe.mpr List.perm_middle
      have hchange := contents_update (B := B) hlt (as ++ bs)
      rw [hbucket, Multiset.add_cons, ← Multiset.cons_add, hi.contents] at hchange
      rw [Finset.erase_val, ← add_right_cancel hchange, Multiset.erase_cons_head]
    · exact (Finset.card_erase_of_mem hx).symm
    · exact hi.power
    · exact hi.bound
    · exact fun y hy => hi.elems y (Finset.mem_of_mem_erase hy)

end Inv

/-- The buckets may change. -/
lemma rehash (hgood : Hashing hash less) (hi : Inv hash less mem h S B) {malloc : ℕ → Option ℕ}
    (hmalloc : ∀ size a, malloc size = some a → Away h S a size) :
    ∃ mem' h' B', Returns (fun fuel => LibKernel.rehash hash malloc fuel mem h) (mem', h') ∧ Inv hash less mem' h' S B' := by
  have hcard := hi.card_lt
  rw [← hi.elemCnt] at hcard
  obtain ⟨mem', h', hrehash, hcases⟩ := rehash_spec hash hcard
    (fun size a ha => ⟨hi.unused (hmalloc size a ha), (hmalloc size a ha).bound, (hmalloc size a ha).buckets⟩) hi.holds
  rcases hcases with ⟨rfl, rfl⟩ | ⟨hcnt, hpower, hbound, hholds⟩
  · exact ⟨mem', h', B, hrehash, hi⟩
  · have hindex (x : ℕ) : bucketIndex hash h'.bucketCnt x < h'.bucketCnt := by
      obtain ⟨k, -, hk⟩ := hpower
      rw [hk]
      exact LibKernel.bucketIndex_lt hash k x
    obtain ⟨hchained, hcontents⟩ := hi.chained.spread (fun _ _ => And.symm) (hgood.bucketIndex_eq _) hindex
    refine ⟨mem', h', _, hrehash, hholds, hchained, ?_, ?_, hpower, hbound, hi.elems⟩
    · rw [hcontents, hi.contents]
    · rw [hcnt, hi.elemCnt]

end Inv

/-! ## The calls -/

section Calls

variable {mem' : Words} {h' : Hash} {malloc : ℕ → Option ℕ}

/-- `rehash`, and then the result of the call. -/
lemma rehash_then (hrehash : Returns (fun fuel => rehash hash malloc fuel mem h) (mem', h')) (r : Option ℕ) :
    Returns (fun fuel => do
      let (mem, h) ← rehash hash malloc fuel mem h
      return (mem, h, r)) (mem', h', r) :=
  hrehash.bind (Returns.of_eq fun _ => rfl)

lemma Found.none {e : ℕ} (hfound : Found less S e none) (x : ℕ) (hx : x ∈ S) : ¬Equal less x e := by
  intro hequal
  cases (hfound x).mpr ⟨hx, hequal⟩

lemma Found.some {e x : ℕ} (hfound : Found less S e (some x)) : x ∈ S ∧ Equal less x e :=
  (hfound x).mp rfl

/-- What is away from more elements is away from fewer. -/
lemma Away.mono {S' : Finset ℕ} {a size n : ℕ} (ha : Away h S a size) (hsub : S' ⊆ S) :
    Away { h with elemCnt := n } S' a size :=
  ⟨ha.ne_zero, ha.bound, ha.buckets, fun x hx => ha.elems x (hsub hx)⟩

/-- The call returns, does what it should, and keeps the invariant. -/
def Performs (hash : ℕ → UInt32) (less : ℕ → ℕ → Bool) (S : Finset ℕ) (op : HashOp)
    (call : ℕ → Option (Words × Hash × Option ℕ)) : Prop :=
  ∃ mem' h' S' B' r, Returns call (mem', h', r) ∧ SetStep less S op r S' ∧ Inv hash less mem' h' S' B'

namespace Inv

section Calls

variable (hgood : Hashing hash less) (hi : Inv hash less mem h S B)
include hgood hi

section Insert

variable (hnew : Away h S new 8) (hmalloc : ∀ size a, malloc size = some a → Away h (insert new S) a size)
include hnew hmalloc

/-- The end of `hash_insert` and `hash_replace`. -/
lemma insertRehash (hnone : ∀ x ∈ S, ¬Equal less x new) (r : Option ℕ) :
    ∃ mem' h' B', Returns (fun fuel => do
        let (mem, h) ← LibKernel.insertElem mem h (findBucket hash h new) new
        let (mem, h) ← LibKernel.rehash hash malloc fuel mem h
        return (mem, h, r)) (mem', h', r) ∧ Inv hash less mem' h' (insert new S) B' := by
  obtain ⟨mem₁, n, B₁, hinsert, h₁⟩ := hi.insertElem hnew hnone
  obtain ⟨mem', h', B', hrehash, h'⟩ := h₁.rehash hgood fun size a ha => (hmalloc size a ha).mono (Finset.Subset.refl _)
  refine ⟨mem', _, B', (rehash_then hrehash r).congr fun fuel => ?_, h'⟩
  rw [hinsert]
  rfl

lemma hashInsert :
    Performs hash less S (.insert new malloc) fun fuel => hashInsert hash less malloc fuel mem h new := by
  obtain ⟨r, hfind, hfound⟩ := hi.find hgood new
  cases r with
  | none =>
    obtain ⟨mem', h', B', hrun, h'⟩ := hi.insertRehash hgood hnew hmalloc hfound.none none
    exact ⟨_, _, _, _, none, hfind.bind hrun, ⟨hfound, rfl⟩, h'⟩
  | some old =>
    obtain ⟨mem', h', B', hrehash, h'⟩ := hi.rehash hgood fun size a ha => (hmalloc size a ha).mono (Finset.subset_insert ..)
    exact ⟨_, _, _, _, some old, hfind.bind (rehash_then hrehash (some old)), ⟨hfound, rfl⟩, h'⟩

lemma hashReplace :
    Performs hash less S (.replace new malloc) fun fuel => hashReplace hash less malloc fuel mem h new := by
  obtain ⟨r, hfind, hfound⟩ := hi.find hgood new
  cases r with
  | none =>
    obtain ⟨mem', h', B', hrun, h'⟩ := hi.insertRehash hgood hnew hmalloc hfound.none none
    exact ⟨_, _, _, _, none, hfind.bind hrun, ⟨hfound, rfl⟩, h'⟩
  | some old =>
    obtain ⟨hmem, hequal⟩ := hfound.some
    obtain ⟨mem₁, n, B₁, hremove, h₁⟩ := hi.removeElem hmem
    -- without the old element, no equal one is left
    have hnone (x : ℕ) (hx : x ∈ S.erase old) : ¬Equal less x new := by
      intro hxnew
      have heq : some old = some x := (hfound x).mpr ⟨Finset.mem_of_mem_erase hx, hxnew⟩
      exact Finset.ne_of_mem_erase hx (Option.some.inj heq).symm
    obtain ⟨mem', h', B', hrun, h'⟩ := h₁.insertRehash hgood (hnew.mono (Finset.erase_subset ..))
      (fun size a ha => (hmalloc size a ha).mono (Finset.insert_subset_insert _ (Finset.erase_subset ..))) hnone (some old)
    refine ⟨_, _, _, _, some old, hfind.bind (hrun.congr fun fuel => ?_), ⟨hfound, rfl⟩, h'⟩
    dsimp only
    rw [hremove]
    rfl

end Insert

lemma hashDelete {e : ℕ} (hmalloc : ∀ size a, malloc size = some a → Away h S a size) :
    Performs hash less S (.delete e malloc) fun fuel => hashDelete hash less malloc fuel mem h e := by
  obtain ⟨r, hfind, hfound⟩ := hi.find hgood e
  cases r with
  | none => exact ⟨_, _, _, _, none, hfind.bind (Returns.of_eq fun _ => rfl), ⟨hfound, rfl⟩, hi⟩
  | some old =>
    obtain ⟨mem₁, n, B₁, hremove, h₁⟩ := hi.removeElem hfound.some.1
    obtain ⟨mem', h', B', hrehash, h'⟩ := h₁.rehash hgood fun size a ha => (hmalloc size a ha).mono (Finset.erase_subset ..)
    refine ⟨_, _, _, _, some old, hfind.bind ((rehash_then hrehash (some old)).congr fun fuel => ?_), ⟨hfound, rfl⟩, h'⟩
    dsimp only
    rw [hremove]
    rfl

omit hgood in
lemma hashClear {destructor : Option (Words → ℕ → Words)}
    (hsafe : ∀ d ∈ destructor, SafeDestructor d) :
    ∃ mem', Returns (fun fuel => hashClear destructor fuel mem h) (mem', { h with elemCnt := 0 }) ∧
      Inv hash less mem' { h with elemCnt := 0 } ∅ fun _ => [] := by
  obtain ⟨mem', hclear, hholds⟩ := hashClear_spec hsafe hi.holds
  exact ⟨mem', hclear, hholds, Chained.nil, contents_nil, rfl, hi.power, hi.bound, fun x hx => by cases hx⟩

/-- Every call that is allowed returns, and does what it should. -/
lemma exec {op : HashOp} (hallowed : Allowed h S op) :
    Performs hash less S op fun fuel => hashExec hash less fuel mem h op := by
  cases op with
  | insert new malloc => exact hi.hashInsert hgood hallowed.1 hallowed.2
  | replace new malloc => exact hi.hashReplace hgood hallowed.1 hallowed.2
  | find e =>
    obtain ⟨r, hfind, hfound⟩ := hi.find hgood e
    exact ⟨mem, h, S, B, r, hfind.map, ⟨hfound, rfl⟩, hi⟩
  | delete e malloc => exact hi.hashDelete hgood hallowed
  | clear destructor =>
    obtain ⟨mem', hclear, h'⟩ := hi.hashClear hallowed
    exact ⟨mem', _, ∅, _, none, hclear.map, ⟨rfl, rfl⟩, h'⟩

end Calls

end Inv

/-- The tables that calls lead to satisfy the invariant. -/
lemma Reach.inv (hgood : Hashing hash less) (hreach : Reach hash less mem h) : ∃ S B, Inv hash less mem h S B := by
  induction hreach with
  | @init malloc mem mem' h hmalloc hinit =>
    cases hbase : malloc (16 * 4) with
    | none =>
      have hnone : Returns (fun fuel => hashInit malloc fuel mem) none := Returns.of_eq fun fuel => by rw [hashInit, hbase]
      cases hinit.unique hnone
    | some base =>
      obtain ⟨hzero, hbound⟩ := hmalloc _ base hbase
      obtain ⟨mem₁, hinit₁, hholds⟩ := hashInit_spec hbase hzero mem
      cases hinit.unique hinit₁
      exact ⟨∅, _, hholds, Chained.nil, contents_nil, rfl, ⟨2, le_refl 2, rfl⟩, hbound, fun x hx => by cases hx⟩
  | call _ hS hallowed hexec ih =>
    obtain ⟨S, B, hi⟩ := ih
    rw [hi.eq_of_elements hS] at hallowed
    obtain ⟨mem₁, h₁, S₁, B₁, r₁, hexec₁, -, hi₁⟩ := hi.exec hgood hallowed
    cases hexec.unique hexec₁
    exact ⟨S₁, B₁, hi₁⟩

end Calls

end

/-- Elements can be equal if their addresses are, up to multiples of 1000. -/
lemma hashing_mod : Hashing (fun e => .ofNat (e % 1000)) (fun x y => decide (x % 1000 < y % 1000)) := by
  constructor
  · intro x
    simp
  · intro x y z
    simp only [decide_eq_true_eq]
    omega
  · intro x y z
    simp only [Equal, decide_eq_true_eq]
    omega
  · intro x y hxy
    simp only [Equal, decide_eq_true_eq] at hxy
    rw [show x % 1000 = y % 1000 by omega]

/-- There is a new table. -/
lemma exists_reach_new (hash : ℕ → UInt32) (less : ℕ → ℕ → Bool) : ∃ mem, Reach hash less mem ⟨0, 4, 4096⟩ := by
  obtain ⟨mem, hinit, -⟩ :=
    @hashInit_spec (fun size => if size = 64 then some 4096 else none) 4096 rfl (by decide) fun _ => 0
  refine ⟨mem, .init (fun size a ha => ?_) hinit⟩
  by_cases hsize : size = 64
  · rw [if_pos hsize] at ha
    obtain rfl : 4096 = a := Option.some.inj ha
    exact ⟨by decide, by omega⟩
  · rw [if_neg hsize] at ha
    cases ha

end OsLabs.LibKernel
