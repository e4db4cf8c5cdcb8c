import OsLabs.LibKernel.HashRuns

/-!
# Iterating over a hash table

`hash_first`, `hash_next` and `hash_apply` of `lib/kernel/hash.c`. Where an iterator is, is described by the elements that are left:
those behind it in its bucket, and those of the later buckets (`nextLoop_spec`).
-/

namespace OsLabs.LibKernel

open Lib Function

/-! ## The code -/

/-- `struct hash_iterator`, without the table; `NULL` is 0. -/
structure HashIterator where
  bucket : ℕ
  elem : ℕ

/-- `hash_first`: the head of the first bucket stands in for an element. -/
def hashFirst (h : Hash) : HashIterator :=
  ⟨h.buckets, h.buckets⟩

section Code

variable (mem : Words) (h : Hash)

/-- The loop of `hash_next`. -/
def nextLoop : ℕ → HashIterator → Option HashIterator
  | 0, _ => none
  | fuel + 1, it =>
    if it.elem = listEnd it.bucket then
      let bucket := it.bucket + 16
      if bucket ≥ h.buckets + 16 * h.bucketCnt then some ⟨bucket, 0⟩
      else nextLoop fuel ⟨bucket, listBegin mem bucket⟩
    else some it

/-- `hash_next`; what it returns is the `elem` of the iterator. -/
def hashNext (fuel : ℕ) (it : HashIterator) : Option HashIterator := do
  let elem ← listNext mem it.elem
  nextLoop mem h fuel { it with elem }

/-- Calls of `hash_next` until it returns `NULL`, with the iterator after each of them. -/
def iterate : ℕ → HashIterator → Option (List HashIterator)
  | 0, _ => none
  | fuel + 1, it => do
    let it ← hashNext mem h fuel it
    (if it.elem = 0 then some [] else iterate fuel it).map (it :: ·)

variable {σ : Type} (action : σ → ℕ → σ)

/-- The inner loop of `hash_apply`. The action changes what it likes but for the table. -/
def applyLoop (stop : ℕ) : ℕ → σ → ℕ → Option σ
  | 0, _, _ => none
  | fuel + 1, s, elem =>
    if elem = stop then some s
    else do
      let next ← listNext mem elem
      applyLoop stop fuel (action s elem) next

/-- `hash_apply`. -/
def hashApply (fuel : ℕ) (s : σ) : Option σ :=
  (List.range h.bucketCnt).foldlM (fun s i =>
    applyLoop mem action (listEnd (h.buckets + 16 * i)) fuel s (listBegin mem (h.buckets + 16 * i))) s

end Code

/-! ## What is left -/

/-- The elements of the buckets from `i` on. -/
def later (n : ℕ) (B : ℕ → List ℕ) (i : ℕ) : List ℕ :=
  ((List.range n).drop i).flatMap B

variable {n i p q : ℕ} {B : ℕ → List ℕ} {as bs xs : List ℕ} {mem : Words}

lemma later_of_lt (hi : i < n) : later n B i = B i ++ later n B (i + 1) := by
  rw [later, List.drop_eq_getElem_cons (by simpa using hi)]
  simp [later]

lemma later_of_le (hi : n ≤ i) : later n B i = [] := by
  simp [later, List.drop_eq_nil_of_le, hi]

lemma coe_later_zero (n : ℕ) (B) : (later n B 0 : Multiset ℕ) = contents n B := by
  induction n with
  | zero => rfl
  | succ n ih =>
    rw [contents_succ, ← ih]
    simp [later, List.range_succ]

lemma applyLoop_spec {σ : Type} {l : ℕ} (h : IsList mem l (as ++ bs)) (hq : At l bs q) (action) (s : σ) :
    Returns (fun fuel => applyLoop mem action (listEnd l) fuel s q) (bs.foldl action s) := by
  induction bs generalizing as q s with
  | nil =>
    obtain rfl : l + 8 = q := Option.some.inj hq
    exact (Returns.of_eq fun _ => rfl).succ fun fuel => if_pos rfl
  | cons x bs ih =>
    obtain rfl : x = q := Option.some.inj hq
    obtain ⟨q, hq⟩ := exists_at l bs
    have hlist : IsList mem l (as ++ [x] ++ bs) := by simpa using h
    refine (ih hlist hq (action s x)).succ fun fuel => ?_
    rw [applyLoop, if_neg h.ne_end, h.listNext_eq hq]
    rfl

section Iterator

variable {hash : ℕ → UInt32} {less : ℕ → ℕ → Bool} {h : Hash} {S : Finset ℕ} (hi : Inv hash less mem h S B)
include hi

lemma Inv.bucket (hlt : i < h.bucketCnt) : IsList mem (h.buckets + 16 * i) (B i) :=
  hi.holds.list _ _ (bucketLists_at hlt)

/-- The loop of `hash_next` goes on to the first element that is left. -/
lemma nextLoop_spec (hlt : i < h.bucketCnt) (hsplit : B i = as ++ bs) (hq : At (h.buckets + 16 * i) bs q) :
    bs ++ later h.bucketCnt B (i + 1) = [] ∧ Returns (fun fuel => nextLoop mem h fuel ⟨h.buckets + 16 * i, q⟩)
        ⟨h.buckets + 16 * h.bucketCnt, 0⟩ ∨
      ∃ j as' x bs', j < h.bucketCnt ∧ B j = as' ++ [x] ++ bs' ∧
        bs ++ later h.bucketCnt B (i + 1) = x :: (bs' ++ later h.bucketCnt B (j + 1)) ∧
        Returns (fun fuel => nextLoop mem h fuel ⟨h.buckets + 16 * i, q⟩) ⟨h.buckets + 16 * j, x⟩ := by
  induction hk : h.bucketCnt - i generalizing i q as bs with
  | zero => omega
  | succ k ih =>
    cases bs with
    | cons x bs =>
      obtain rfl : x = q := Option.some.inj hq
      refine Or.inr ⟨i, as, x, bs, hlt, by simpa using hsplit, rfl, (Returns.of_eq fun _ => rfl).succ fun fuel => ?_⟩
      exact if_neg (hsplit ▸ hi.bucket hlt).ne_end
    | nil =>
      obtain rfl : h.buckets + 16 * i + 8 = q := Option.some.inj hq
      by_cases hlast : i + 1 < h.bucketCnt
      · -- the next bucket
        obtain ⟨q, hq⟩ := exists_at (h.buckets + 16 * (i + 1)) (B (i + 1))
        have hround (fuel : ℕ) : nextLoop mem h (fuel + 1) ⟨h.buckets + 16 * i, h.buckets + 16 * i + 8⟩ =
            nextLoop mem h fuel ⟨h.buckets + 16 * (i + 1), q⟩ := by
          rw [nextLoop, if_pos (by rfl), if_neg (by dsimp only; omega)]
          dsimp only
          rw [show h.buckets + 16 * i + 16 = h.buckets + 16 * (i + 1) by omega, (hi.bucket hlast).begin_eq hq]
        rw [later_of_lt hlast, List.nil_append]
        rcases ih hlast (List.nil_append _).symm hq (by omega) with ⟨hnil, hend⟩ | ⟨j, as', x, bs', hj, hB, hrest, hnext⟩
        · exact Or.inl ⟨hnil, hend.succ hround⟩
        · exact Or.inr ⟨j, as', x, bs', hj, hB, hrest, hnext.succ hround⟩
      · refine Or.inl ⟨later_of_le (by omega), (Returns.of_eq fun _ => rfl).succ fun fuel => ?_⟩
        rw [nextLoop, if_pos (by rfl), if_pos (by dsimp only; omega)]
        dsimp only
        rw [show h.buckets + 16 * i + 16 = h.buckets + 16 * h.bucketCnt by omega]

omit hi in
/-- One call, and then the others. -/
lemma iterate_step {l : ℕ} {it : HashIterator} {rest : List HashIterator} (hlist : IsList mem l xs) (hsplit : xs = as ++ bs)
    (hp : (l :: as).getLast? = some p) (hq : At l bs q) (hloop : Returns (fun fuel => nextLoop mem h fuel ⟨l, q⟩) it)
    (hrest : Returns (fun fuel => if it.elem = 0 then some [] else iterate mem h fuel it) rest) :
    Returns (fun fuel => iterate mem h fuel ⟨l, p⟩) (it :: rest) := by
  subst hsplit
  refine (hloop.bind (g := fun fuel it => (if it.elem = 0 then some [] else iterate mem h fuel it).map (it :: ·))
    hrest.map).succ fun fuel => ?_
  rw [iterate, hashNext, hlist.listNext_of_last hp hq]
  rfl

/-- The action is called for the elements of one bucket after the other. -/
lemma hashApply_spec {σ : Type} (action) (s : σ) :
    Returns (fun fuel => hashApply mem h action fuel s) ((later h.bucketCnt B 0).foldl action s) := by
  -- the buckets before number `k` are done
  let P (k : ℕ) (t : σ) : Prop := t = ((List.range k).flatMap B).foldl action s
  obtain ⟨t, happly, rfl⟩ : ∃ t, Returns (fun fuel => hashApply mem h action fuel s) t ∧ P h.bucketCnt t := by
    refine Returns.foldlM_range (fun i hlt t ht => ?_) rfl
    obtain ⟨q, hq⟩ := exists_at (h.buckets + 16 * i) (B i)
    have hlist : IsList mem (h.buckets + 16 * i) ([] ++ B i) := hi.bucket hlt
    rw [hlist.begin_eq hq]
    refine ⟨_, applyLoop_spec hlist hq action t, ?_⟩
    simp [P, ht, List.range_succ]
  exact happly

/-- The iteration visits what is left, each element with the iterator at its bucket. -/
lemma iterate_spec (hlt : i < h.bucketCnt) (hsplit : B i = as ++ bs)
    (hp : ((h.buckets + 16 * i) :: as).getLast? = some p) :
    Returns (fun fuel => iterate mem h fuel ⟨h.buckets + 16 * i, p⟩)
      ((bs ++ later h.bucketCnt B (i + 1)).map (fun x => ⟨findBucket hash h x, x⟩) ++
        [⟨h.buckets + 16 * h.bucketCnt, 0⟩]) := by
  induction hrest : bs ++ later h.bucketCnt B (i + 1) generalizing i p as bs with
  | nil =>
    obtain ⟨q, hq⟩ := exists_at (h.buckets + 16 * i) bs
    rcases nextLoop_spec hi hlt hsplit hq with ⟨-, hend⟩ | ⟨j, as', x, bs', -, -, hrest', -⟩
    · exact iterate_step (hi.bucket hlt) hsplit hp hq hend (Returns.of_eq fun _ => if_pos rfl)
    · rw [hrest] at hrest'
      cases hrest'
  | cons y rest ih =>
    obtain ⟨q, hq⟩ := exists_at (h.buckets + 16 * i) bs
    rcases nextLoop_spec hi hlt hsplit hq with ⟨hnil, -⟩ | ⟨j, as', x, bs', hj, hB, hrest', hnext⟩
    · rw [hrest] at hnil
      cases hnil
    · obtain ⟨rfl, hrest''⟩ := List.cons.inj (hrest.symm.trans hrest')
      have hx : y ∈ B j := by simp [hB]
      have hzero : y ≠ 0 := (hi.bucket hj).ne_zero _ (mem_nodes.mpr (Or.inr (Or.inl hx)))
      have hbucket : findBucket hash h y = h.buckets + 16 * j := by
        rw [← hi.chained.placed j hj y hx]
        rfl
      rw [List.map_cons, List.cons_append, hbucket]
      refine iterate_step (hi.bucket hlt) hsplit hp hq hnext ((ih hj hB ?_ hrest''.symm).congr fun _ => if_neg hzero)
      rw [← List.cons_append, List.getLast?_concat]

end Iterator

end OsLabs.LibKernel
