import Mathlib.Data.Nat.Bitwise
import OsLabs.Lib.Chaining
import OsLabs.Lib.Yields
import OsLabs.LibKernel.ListOps

/-!
# Hash tables in memory

`lib/kernel/hash.c`: the buckets are lists one after the other in memory. What the code does to memory is what it does to the
sequences in the buckets (`bucketLists`):

* `findElem_spec` searches a bucket;
* `clear_spec` makes the buckets empty;
* `rehash_spec` moves the elements to new buckets, if there are any.

`malloc` is a function from the size to the block that it returns. `hash` and `less` are functions of the address of
an element.
-/

namespace OsLabs.LibKernel

open Lib Function

/-- `struct hash`, without the functions. -/
structure Hash where
  elemCnt : ℕ
  bucketCnt : ℕ
  buckets : ℕ

/-! ## The code -/

section Code

variable (hash : ℕ → UInt32) (less : ℕ → ℕ → Bool) (malloc : ℕ → Option ℕ)

/-- `turn_off_least_1bit`. -/
def turnOffLeast1bit (x : ℕ) : ℕ :=
  x &&& (x - 1)

/-- `is_power_of_2`. -/
def isPowerOf2 (x : ℕ) : Prop :=
  x ≠ 0 ∧ turnOffLeast1bit x = 0

instance (x : ℕ) : Decidable (isPowerOf2 x) := inferInstanceAs (Decidable (_ ∧ _))

/-- `find_bucket`. -/
def findBucket (h : Hash) (e : ℕ) : ℕ :=
  h.buckets + 16 * ((hash e).toNat &&& (h.bucketCnt - 1))

/-- The loop of `find_elem`; the inner `none` is `NULL`. -/
def findLoop (stop e : ℕ) (mem : Words) : ℕ → ℕ → Option (Option ℕ)
  | 0, _ => none
  | fuel + 1, i =>
    if i = stop then some none
    else if ¬less i e ∧ ¬less e i then some (some i)
    else do
      let i ← listNext mem i
      findLoop stop e mem fuel i

/-- `find_elem`. -/
def findElem (fuel : ℕ) (mem : Words) (bucket e : ℕ) : Option (Option ℕ) :=
  findLoop less (listEnd bucket) e mem fuel (listBegin mem bucket)

/-- `insert_elem`. -/
def insertElem (mem : Words) (h : Hash) (bucket e : ℕ) : Option (Words × Hash) := do
  let mem ← listPushFront mem bucket e
  return (mem, { h with elemCnt := (h.elemCnt + 1) % 2 ^ 32 })

/-- `remove_elem`. -/
def removeElem (mem : Words) (h : Hash) (e : ℕ) : Option (Words × Hash) := do
  let mem ← listRemove mem e
  return (mem, { h with elemCnt := (h.elemCnt + 2 ^ 32 - 1) % 2 ^ 32 })

/-- The loop of `rehash` that lowers the number of buckets to a power of 2. -/
def lowerLoop : ℕ → ℕ → Option ℕ
  | 0, _ => none
  | fuel + 1, x => if isPowerOf2 x then some x else lowerLoop fuel (turnOffLeast1bit x)

/-- The number of buckets that `rehash` wants. -/
def newBucketCnt (fuel elemCnt : ℕ) : Option ℕ :=
  lowerLoop fuel (if elemCnt / 2 < 4 then 4 else elemCnt / 2)

/-- The loop of `rehash` that initializes the new buckets. -/
def initBuckets (mem : Words) (buckets cnt : ℕ) : Words :=
  (List.range cnt).foldl (fun mem i => listInit mem (buckets + 16 * i)) mem

/-- The loop of `rehash` that moves the elements of one old bucket. -/
def moveLoop (h : Hash) (stop : ℕ) : ℕ → Words → ℕ → Option Words
  | 0, _, _ => none
  | fuel + 1, mem, elem =>
    if elem = stop then some mem
    else do
      let newBucket := findBucket hash h elem
      let next ← listNext mem elem
      let mem ← listRemove mem elem
      let mem ← listPushFront mem newBucket elem
      moveLoop h stop fuel mem next

/-- One round of the loop over the old buckets. -/
def moveBucket (fuel : ℕ) (h : Hash) (oldBuckets : ℕ) (mem : Words) (i : ℕ) : Option Words :=
  moveLoop hash h (listEnd (oldBuckets + 16 * i)) fuel mem (listBegin mem (oldBuckets + 16 * i))

/-- `rehash`. -/
def rehash (fuel : ℕ) (mem : Words) (h : Hash) : Option (Words × Hash) := do
  let cnt ← newBucketCnt fuel h.elemCnt
  if cnt = h.bucketCnt then return (mem, h)
  else
    match malloc (16 * cnt % 2 ^ 32) with
    | none => return (mem, h)
    | some newBuckets =>
      let mem := initBuckets mem newBuckets cnt
      let new := { h with buckets := newBuckets, bucketCnt := cnt }
      let mem ← (List.range h.bucketCnt).foldlM (moveBucket hash fuel new h.buckets) mem
      return (mem, new)

/-- The loop of `hash_clear` that takes the elements out of a bucket. -/
def drainLoop (destructor : Words → ℕ → Words) (bucket : ℕ) : ℕ → Words → Option Words
  | 0, _ => none
  | fuel + 1, mem =>
    if listEmpty mem bucket then some mem
    else do
      let (mem, elem) ← listPopFront mem bucket
      drainLoop destructor bucket fuel (destructor mem elem)

/-- One round of `hash_clear`. -/
def clearBucket (destructor : Option (Words → ℕ → Words)) (fuel buckets : ℕ) (mem : Words) (i : ℕ) : Option Words := do
  let bucket := buckets + 16 * i
  let mem ← match destructor with
    | none => some mem
    | some destructor => drainLoop destructor bucket fuel mem
  return listInit mem bucket

/-- `hash_clear`. -/
def hashClear (destructor : Option (Words → ℕ → Words)) (fuel : ℕ) (mem : Words) (h : Hash) : Option (Words × Hash) := do
  let mem ← (List.range h.bucketCnt).foldlM (clearBucket destructor fuel h.buckets) mem
  return (mem, { h with elemCnt := 0 })

/-- `hash_init`; the inner `none` is the result `false`. -/
def hashInit (fuel : ℕ) (mem : Words) : Option (Option (Words × Hash)) :=
  match malloc (16 * 4) with
  | none => some none
  | some buckets => (hashClear none fuel mem { elemCnt := 0, bucketCnt := 4, buckets }).map some

/-- `hash_insert`. -/
def hashInsert (fuel : ℕ) (mem : Words) (h : Hash) (new : ℕ) : Option (Words × Hash × Option ℕ) := do
  let bucket := findBucket hash h new
  let old ← findElem less fuel mem bucket new
  let (mem, h) ← match old with
    | none => insertElem mem h bucket new
    | some _ => some (mem, h)
  let (mem, h) ← rehash hash malloc fuel mem h
  return (mem, h, old)

/-- `hash_replace`. -/
def hashReplace (fuel : ℕ) (mem : Words) (h : Hash) (new : ℕ) : Option (Words × Hash × Option ℕ) := do
  let bucket := findBucket hash h new
  let old ← findElem less fuel mem bucket new
  let (mem, h) ← match old with
    | none => some (mem, h)
    | some old => removeElem mem h old
  let (mem, h) ← insertElem mem h bucket new
  let (mem, h) ← rehash hash malloc fuel mem h
  return (mem, h, old)

/-- `hash_find`. -/
def hashFind (fuel : ℕ) (mem : Words) (h : Hash) (e : ℕ) : Option (Option ℕ) :=
  findElem less fuel mem (findBucket hash h e) e

/-- `hash_delete`. -/
def hashDelete (fuel : ℕ) (mem : Words) (h : Hash) (e : ℕ) : Option (Words × Hash × Option ℕ) := do
  let found ← findElem less fuel mem (findBucket hash h e) e
  match found with
  | none => return (mem, h, none)
  | some elem =>
    let (mem, h) ← removeElem mem h elem
    let (mem, h) ← rehash hash malloc fuel mem h
    return (mem, h, some elem)

end Code

/-! ## Powers of two -/

/-- Turning off the lowest bit keeps the highest one, if there are others. -/
lemma two_pow_le_turnOffLeast1bit {k x : ℕ} (hle : 2 ^ k ≤ x) (hlt : x < 2 ^ (k + 1)) (hne : x ≠ 2 ^ k) :
    2 ^ k ≤ turnOffLeast1bit x := by
  have hbit (y : ℕ) (hle : 2 ^ k ≤ y) (hlt : y < 2 ^ (k + 1)) : y.testBit k = true := by
    rw [Nat.testBit_eq_decide_div_mod_eq, decide_eq_true_iff]
    have hdiv : y / 2 ^ k = 1 := by
      apply Nat.div_eq_of_lt_le
      · omega
      · omega
    rw [hdiv]
  apply Nat.ge_two_pow_of_testBit
  rw [turnOffLeast1bit, Nat.testBit_and, hbit x hle hlt, hbit (x - 1) (by omega) (by omega)]
  rfl

lemma isPowerOf2_iff {x : ℕ} : isPowerOf2 x ↔ ∃ k, x = 2 ^ k := by
  constructor
  · intro h
    refine ⟨x.log2, ?_⟩
    by_contra hne
    have hle := two_pow_le_turnOffLeast1bit (Nat.log2_self_le h.1) Nat.lt_log2_self hne
    have hpos := Nat.two_pow_pos x.log2
    have := h.2
    omega
  · rintro ⟨k, rfl⟩
    have hpos := Nat.two_pow_pos k
    refine ⟨by omega, ?_⟩
    rw [turnOffLeast1bit, Nat.and_two_pow_sub_one_eq_mod, Nat.mod_self]

/-- The loop returns a power of 2 that is not smaller than any below the start. -/
lemma lowerLoop_spec {k x : ℕ} (hx : 2 ^ k ≤ x) :
    ∃ j, k ≤ j ∧ 2 ^ j ≤ x ∧ Returns (fun fuel => lowerLoop fuel x) (2 ^ j) := by
  induction x using Nat.strong_induction_on with
  | _ x ih =>
    have hpos := Nat.two_pow_pos k
    by_cases hpower : isPowerOf2 x
    · obtain ⟨j, rfl⟩ := isPowerOf2_iff.mp hpower
      refine ⟨j, (Nat.pow_le_pow_iff_right (by decide)).mp hx, le_refl _, ?_⟩
      have hround (fuel : ℕ) : lowerLoop (fuel + 1) (2 ^ j) = some (2 ^ j) := by
        rw [lowerLoop, if_pos hpower]
      exact (Returns.of_eq fun _ => rfl).succ hround
    · have hhigh : 2 ^ x.log2 ≤ turnOffLeast1bit x :=
        two_pow_le_turnOffLeast1bit (Nat.log2_self_le (by omega)) Nat.lt_log2_self
          fun heq => hpower (isPowerOf2_iff.mpr ⟨_, heq⟩)
      have hk : 2 ^ k ≤ 2 ^ x.log2 := Nat.pow_le_pow_right (by decide) ((Nat.le_log2 (by omega)).mpr hx)
      have hless : turnOffLeast1bit x ≤ x - 1 := Nat.and_le_right
      obtain ⟨j, hkj, hjx, hreturns⟩ := ih (turnOffLeast1bit x) (by omega) (by omega)
      refine ⟨j, hkj, by omega, hreturns.succ fun fuel => ?_⟩
      rw [lowerLoop, if_neg hpower]

/-- The new number of buckets is a power of 2, at least 4, and at most half the number of elements if that is more. -/
lemma newBucketCnt_spec (elemCnt : ℕ) :
    ∃ k, 2 ≤ k ∧ 2 ^ k ≤ max 4 (elemCnt / 2) ∧ Returns (fun fuel => newBucketCnt fuel elemCnt) (2 ^ k) := by
  by_cases hsmall : elemCnt / 2 < 4
  · obtain ⟨k, hk, hle, hreturns⟩ := lowerLoop_spec (show 2 ^ 2 ≤ 4 by decide)
    refine ⟨k, hk, by omega, hreturns.congr fun fuel => ?_⟩
    rw [newBucketCnt, if_pos hsmall]
  · obtain ⟨k, hk, hle, hreturns⟩ := lowerLoop_spec (show 2 ^ 2 ≤ elemCnt / 2 by omega)
    refine ⟨k, hk, by omega, hreturns.congr fun fuel => ?_⟩
    rw [newBucketCnt, if_neg hsmall]

/-! ## The buckets -/

/-- The lists of `n` buckets one after the other. -/
def bucketLists (base n : ℕ) (B : ℕ → List ℕ) : Lists :=
  fun l => if base ≤ l ∧ (l - base) % 16 = 0 ∧ (l - base) / 16 < n then some (B ((l - base) / 16)) else none

section Buckets

variable {base n i l : ℕ} {B : ℕ → List ℕ} {xs ys : List ℕ}

lemma bucketLists_eq_some : bucketLists base n B l = some xs ↔ ∃ i < n, l = base + 16 * i ∧ xs = B i := by
  unfold bucketLists
  constructor
  · intro h
    by_cases hl : base ≤ l ∧ (l - base) % 16 = 0 ∧ (l - base) / 16 < n
    · rw [if_pos hl] at h
      exact ⟨(l - base) / 16, hl.2.2, by omega, (Option.some.inj h).symm⟩
    · rw [if_neg hl] at h
      cases h
  · rintro ⟨i, hi, rfl, rfl⟩
    have hindex : (base + 16 * i - base) / 16 = i := by omega
    rw [if_pos ⟨by omega, by omega, by omega⟩, hindex]

lemma bucketLists_at (hi : i < n) : bucketLists base n B (base + 16 * i) = some (B i) :=
  bucketLists_eq_some.mpr ⟨i, hi, rfl, rfl⟩

/-- One bucket changes. -/
lemma update_bucketLists (hi : i < n) :
    update (bucketLists base n B) (base + 16 * i) (some ys) = bucketLists base n (update B i ys) := by
  funext l
  by_cases hl : l = base + 16 * i
  · subst hl
    rw [update_self, bucketLists_at hi, update_self]
  · rw [update_of_ne hl]
    unfold bucketLists
    by_cases hin : base ≤ l ∧ (l - base) % 16 = 0 ∧ (l - base) / 16 < n
    · rw [if_pos hin, if_pos hin, update_of_ne (by omega)]
    · rw [if_neg hin, if_neg hin]

/-- What the node of a bucket is. -/
lemma mem_nodes_bucket {y : ℕ} (hi : i < n) (hy : y ∈ nodes (base + 16 * i) (B i)) :
    (base ≤ y ∧ y + 8 ≤ base + 16 * n) ∨ y ∈ contents n B := by
  rcases mem_nodes.mp hy with rfl | hy | rfl
  · exact Or.inl ⟨by omega, by omega⟩
  · exact Or.inr (mem_contents.mpr ⟨i, hi, hy⟩)
  · exact Or.inl ⟨by omega, by omega⟩

end Buckets

/-! ## Searching -/

section Search

variable {less : ℕ → ℕ → Bool} {mem : Words} {l : ℕ} {xs : List ℕ}

/-- The test of `find_elem`. -/
def equal (less : ℕ → ℕ → Bool) (e i : ℕ) : Bool :=
  !less i e && !less e i

lemma findLoop_spec {as bs : List ℕ} {i : ℕ} (h : IsList mem l (as ++ bs)) (hi : At l bs i) (e : ℕ) :
    Returns (fun fuel => findLoop less (listEnd l) e mem fuel i) (bs.find? (equal less e)) := by
  induction bs generalizing as i with
  | nil =>
    obtain rfl : l + 8 = i := Option.some.inj hi
    have hround (fuel : ℕ) : findLoop less (listEnd l) e mem (fuel + 1) (l + 8) = some none := by
      rw [findLoop, listEnd, if_pos rfl]
    exact (Returns.of_eq fun _ => rfl).succ hround
  | cons x bs ih =>
    obtain rfl : x = i := Option.some.inj hi
    have hlist : IsList mem l (as ++ [x] ++ bs) := by simpa using h
    by_cases heq : equal less e x = true
    · have htest : ¬less x e ∧ ¬less e x := by
        simpa [equal] using heq
      have hround (fuel : ℕ) : findLoop less (listEnd l) e mem (fuel + 1) x = some (some x) := by
        rw [findLoop, if_neg h.ne_end, if_pos htest]
      rw [List.find?_cons_of_pos heq]
      exact (Returns.of_eq fun _ => rfl).succ hround
    · obtain ⟨q, hq⟩ := exists_at l bs
      have htest : ¬(¬less x e ∧ ¬less e x) := by
        simpa [equal] using heq
      rw [List.find?_cons_of_neg heq]
      refine (ih hlist hq).succ fun fuel => ?_
      rw [findLoop, if_neg h.ne_end, if_neg htest, h.listNext_eq hq]
      rfl

/-- `find_elem` searches the bucket. -/
lemma findElem_spec (h : IsList mem l xs) (e : ℕ) :
    Returns (fun fuel => findElem less fuel mem l e) (xs.find? (equal less e)) := by
  obtain ⟨q, hq⟩ := exists_at l xs
  have hlist : IsList mem l ([] ++ xs) := h
  refine (findLoop_spec hlist hq e).congr fun fuel => ?_
  rw [findElem, h.begin_eq hq]

end Search

/-! ## Two tables -/

/-- The lists of `L`, and those of `L'`. -/
def both (L L' : Lists) : Lists :=
  fun l => (L l).or (L' l)

section Both

variable {L L' : Lists} {l : ℕ} {xs ys : List ℕ}

lemma both_left (h : L l = some xs) : both L L' l = some xs := by
  rw [both, h]
  rfl

lemma both_right (h : L l = none) : both L L' l = L' l := by
  rw [both, h]
  rfl

lemma both_eq_some (h : both L L' l = some xs) : L l = some xs ∨ L' l = some xs := by
  cases hl : L l with
  | none => exact Or.inr ((both_right hl).symm.trans h)
  | some ys => exact Or.inl ((both_left hl).symm.trans h)

lemma update_both_left : update (both L L') l (some ys) = both (update L l (some ys)) L' := by
  funext l'
  by_cases hl : l' = l
  · subst hl
    rw [update_self, both_left (update_self ..)]
  · rw [update_of_ne hl, both, both, update_of_ne hl]

lemma update_both_right (h : L l = none) :
    update (both L L') l (some ys) = both L (update L' l (some ys)) := by
  funext l'
  by_cases hl : l' = l
  · subst hl
    rw [update_self, both_right h, update_self]
  · rw [update_of_ne hl, both, both, update_of_ne hl]

lemma bucketLists_eq_none {base n : ℕ} {B : ℕ → List ℕ} (h : l < base ∨ base + 16 * n ≤ l) :
    bucketLists base n B l = none := by
  rw [bucketLists, if_neg]
  omega

end Both

/-! ## Making buckets -/

section Make

variable {mem : Words} {L : Lists} {base n : ℕ}

/-- A block of memory without nodes. -/
def Unused (L : Lists) (a size : ℕ) : Prop :=
  a ≠ 0 ∧ ∀ l xs, L l = some xs → ∀ y ∈ nodes l xs, a + size ≤ y ∨ y + 8 ≤ a

/-- One more empty bucket. -/
lemma Holds.bucket (hunused : Unused L base (16 * n)) {i : ℕ} (hi : i < n)
    (h : Holds mem (both (bucketLists base i fun _ => []) L)) :
    Holds (listInit mem (base + 16 * i)) (both (bucketLists base (i + 1) fun _ => []) L) := by
  have hfresh (x : ℕ) (hx : x = base + 16 * i ∨ x = base + 16 * i + 8) :
      Fresh (both (bucketLists base i fun _ => []) L) x := by
    refine ⟨by have := hunused.1; omega, fun l xs hl y hy => ?_⟩
    unfold Apart
    rcases both_eq_some hl with hl | hl
    · obtain ⟨j, hj, rfl, rfl⟩ := bucketLists_eq_some.mp hl
      rcases mem_nodes.mp hy with rfl | hy | rfl
      · omega
      · cases hy
      · omega
    · have := hunused.2 l xs hl y hy
      omega
  have hinit := h.init_fresh (hfresh _ (Or.inl rfl)) (hfresh _ (Or.inr rfl))
  rw [update_both_left] at hinit
  convert hinit using 2
  funext l
  by_cases hl : l = base + 16 * i
  · subst hl
    rw [update_self, bucketLists_at (Nat.lt_succ_self i)]
  · rw [update_of_ne hl]
    unfold bucketLists
    by_cases hin : base ≤ l ∧ (l - base) % 16 = 0 ∧ (l - base) / 16 < i
    · rw [if_pos hin, if_pos ⟨hin.1, hin.2.1, by omega⟩]
    · rw [if_neg hin, if_neg fun hin' => hin ⟨hin'.1, hin'.2.1, by omega⟩]

/-- The new buckets of `rehash`. -/
lemma initBuckets_spec (hunused : Unused L base (16 * n)) (h : Holds mem L) :
    Holds (initBuckets mem base n) (both (bucketLists base n fun _ => []) L) := by
  have hloop (i : ℕ) (hi : i ≤ n) : Holds (initBuckets mem base i) (both (bucketLists base i fun _ => []) L) := by
    induction i with
    | zero => exact h.mono fun l xs hl => (both_right (bucketLists_eq_none (by omega))).symm.trans hl
    | succ i ih =>
      rw [initBuckets, List.range_succ, List.foldl_append]
      exact (ih (by omega)).bucket hunused (by omega)
  exact hloop n (le_refl n)

end Make

/-! ## Emptying buckets -/

/-- A destructor leaves lists alone that its element is not in. -/
def SafeDestructor (destructor : Words → ℕ → Words) : Prop :=
  ∀ L mem elem, Holds mem L → Fresh L elem → Holds (destructor mem elem) L

section Empty

variable {mem : Words} {L : Lists} {l : ℕ} {xs : List ℕ} {destructor : Option (Words → ℕ → Words)}

lemma drainLoop_spec {destructor : Words → ℕ → Words} (hsafe : SafeDestructor destructor) (h : Holds mem L)
    (hl : L l = some xs) :
    ∃ mem', Returns (fun fuel => drainLoop destructor l fuel mem) mem' ∧ Holds mem' (update L l (some [])) := by
  induction xs generalizing mem L with
  | nil =>
    have hround (fuel : ℕ) : drainLoop destructor l (fuel + 1) mem = some mem := by
      rw [drainLoop, if_pos ((h.list l [] hl).empty_iff.mpr rfl)]
    refine ⟨mem, (Returns.of_eq fun _ => rfl).succ hround, ?_⟩
    rw [← hl, update_eq_self]
    exact h
  | cons x xs ih =>
    obtain ⟨mem₁, hpop, h₁, hfresh⟩ := h.popFront hl
    obtain ⟨mem', hloop, h'⟩ := ih (hsafe _ mem₁ x h₁ hfresh) (update_self ..)
    refine ⟨mem', hloop.succ fun fuel => ?_, ?_⟩
    · rw [drainLoop, if_neg (by rw [(h.list l _ hl).empty_iff]; simp), hpop]
      rfl
    · rw [update_idem] at h'
      exact h'

lemma clearBucket_spec (hsafe : ∀ d ∈ destructor, SafeDestructor d) {base i : ℕ}
    (h : Holds mem L) (hl : L (base + 16 * i) = some xs) :
    ∃ mem', Returns (fun fuel => clearBucket destructor fuel base mem i) mem' ∧
      Holds mem' (update L (base + 16 * i) (some [])) := by
  -- the list is initialized in both cases
  have hinit (mem' : Words) (L' : Lists) (ys : List ℕ) (h' : Holds mem' L') (hl' : L' (base + 16 * i) = some ys) :
      Holds (listInit mem' (base + 16 * i)) (update L' (base + 16 * i) (some [])) := by
    refine h'.init ((h'.list _ ys hl').ne_zero _ (mem_nodes.mpr (Or.inl rfl))) fun l' xs' hl'' hne x hx => ?_
    refine h'.away hl' l' xs' hl'' hne x ?_
    rcases List.mem_cons.mp hx with rfl | hx
    · exact mem_nodes.mpr (Or.inl rfl)
    · exact mem_nodes.mpr (Or.inr (Or.inr (List.mem_singleton.mp hx)))
  cases destructor with
  | none => exact ⟨_, Returns.of_eq fun _ => rfl, hinit mem L xs h hl⟩
  | some d =>
    obtain ⟨mem₁, hloop, h₁⟩ := drainLoop_spec (hsafe d rfl) h hl
    refine ⟨_, hloop.bind (Returns.of_eq fun _ => rfl), ?_⟩
    have hempty := hinit mem₁ _ [] h₁ (update_self ..)
    rw [update_idem] at hempty
    exact hempty

/-- The first `k` buckets are empty. -/
def emptied (k : ℕ) (B : ℕ → List ℕ) : ℕ → List ℕ :=
  fun i => if i < k then [] else B i

lemma emptied_self (k : ℕ) (B) : emptied k B k = B k :=
  if_neg (lt_irrefl k)

lemma update_emptied (k : ℕ) (B) : update (emptied k B) k [] = emptied (k + 1) B := by
  funext i
  by_cases hi : i = k
  · subst hi
    rw [update_self, emptied, if_pos (Nat.lt_succ_self i)]
  · rw [update_of_ne hi, emptied, emptied]
    by_cases hlt : i < k
    · rw [if_pos hlt, if_pos (by omega)]
    · rw [if_neg hlt, if_neg (by omega)]

/-- `hash_clear` makes the buckets empty. -/
lemma hashClear_spec (hsafe : ∀ d ∈ destructor, SafeDestructor d) {ht : Hash}
    {B : ℕ → List ℕ} (h : Holds mem (bucketLists ht.buckets ht.bucketCnt B)) :
    ∃ mem', Returns (fun fuel => hashClear destructor fuel mem ht) (mem', { ht with elemCnt := 0 }) ∧
      Holds mem' (bucketLists ht.buckets ht.bucketCnt fun _ => []) := by
  have hround (i : ℕ) (hi : i < ht.bucketCnt) (mem : Words)
      (h : Holds mem (bucketLists ht.buckets ht.bucketCnt (emptied i B))) :
      ∃ mem', Returns (fun fuel => clearBucket destructor fuel ht.buckets mem i) mem' ∧
        Holds mem' (bucketLists ht.buckets ht.bucketCnt (emptied (i + 1) B)) := by
    obtain ⟨mem', hclear, h'⟩ := clearBucket_spec hsafe h (bucketLists_at hi)
    rw [update_bucketLists hi, update_emptied] at h'
    exact ⟨mem', hclear, h'⟩
  obtain ⟨mem', hloop, h'⟩ := Returns.foldlM_range hround h
  refine ⟨mem', hloop.bind (Returns.of_eq fun _ => rfl), h'.mono fun l xs hl => ?_⟩
  obtain ⟨i, hi, rfl, rfl⟩ := bucketLists_eq_some.mp hl
  rw [bucketLists_at hi, emptied, if_pos hi]

end Empty

/-! ## Starting -/

variable {malloc : ℕ → Option ℕ}

/-- `hash_init` with memory for the buckets. -/
lemma hashInit_spec {base : ℕ} (hmalloc : malloc (16 * 4) = some base) (hbase : base ≠ 0)
    (mem : Words) :
    ∃ mem', Returns (fun fuel => hashInit malloc fuel mem) (some (mem', ⟨0, 4, base⟩)) ∧
      Holds mem' (bucketLists base 4 fun _ => []) := by
  have hunused : Unused (fun _ => none) base (16 * 4) :=
    ⟨hbase, fun _ _ hl => (Option.some_ne_none _ hl.symm).elim⟩
  have hround (i : ℕ) (hi : i < 4) (mem : Words) (h : Holds mem (both (bucketLists base i fun _ => []) fun _ => none)) :
      ∃ mem', Returns (fun fuel => clearBucket none fuel base mem i) mem' ∧
        Holds mem' (both (bucketLists base (i + 1) fun _ => []) fun _ => none) :=
    ⟨_, Returns.of_eq fun _ => rfl, h.bucket hunused hi⟩
  have hstart : Holds mem (both (bucketLists base 0 fun _ => []) fun _ => none) :=
    (holds_none mem).mono fun l xs hl => (both_right (bucketLists_eq_none (by omega))).symm.trans hl
  obtain ⟨mem', hloop, h'⟩ := Returns.foldlM_range hround hstart
  have hclear : Returns (fun fuel => hashClear none fuel mem ⟨0, 4, base⟩) (mem', ⟨0, 4, base⟩) :=
    hloop.bind (Returns.of_eq fun _ => rfl)
  refine ⟨mem', hclear.map.congr fun fuel => ?_, h'.mono fun l xs hl => both_left hl⟩
  rw [hashInit, hmalloc]

/-! ## Moving the elements -/

/-- The number of the bucket of an element. -/
def bucketIndex (hash : ℕ → UInt32) (n e : ℕ) : ℕ :=
  (hash e).toNat &&& (n - 1)

lemma bucketIndex_lt (hash : ℕ → UInt32) (k e : ℕ) : bucketIndex hash (2 ^ k) e < 2 ^ k := by
  rw [bucketIndex, Nat.and_two_pow_sub_one_eq_mod]
  exact Nat.mod_lt _ (Nat.two_pow_pos k)

section Move

variable (hash : ℕ → UInt32) {mem : Words} {new : Hash} {old n k : ℕ} {B N : ℕ → List ℕ}

/-- The elements of one old bucket are moved, each to the front of its new bucket. -/
lemma moveLoop_spec (hcnt : new.bucketCnt = 2 ^ k)
    (hdisjoint : new.buckets + 16 * new.bucketCnt ≤ old ∨ old + 16 * n ≤ new.buckets) {i : ℕ} (hi : i < n) {xs : List ℕ}
    (hxs : B i = xs) {elem : ℕ} (helem : At (old + 16 * i) xs elem)
    (h : Holds mem (both (bucketLists new.buckets new.bucketCnt N) (bucketLists old n B))) :
    ∃ mem', Returns (fun fuel => moveLoop hash new (listEnd (old + 16 * i)) fuel mem elem) mem' ∧
      Holds mem' (both (bucketLists new.buckets new.bucketCnt (xs.foldl (pushFront (bucketIndex hash new.bucketCnt)) N))
        (bucketLists old n (update B i []))) := by
  have hnone (N : ℕ → List ℕ) : bucketLists new.buckets new.bucketCnt N (old + 16 * i) = none :=
    bucketLists_eq_none (by omega)
  induction xs generalizing mem B N elem with
  | nil =>
    obtain rfl : old + 16 * i + 8 = elem := Option.some.inj helem
    have hround (fuel : ℕ) :
        moveLoop hash new (listEnd (old + 16 * i)) (fuel + 1) mem (old + 16 * i + 8) = some mem := by
      rw [moveLoop, listEnd, if_pos rfl]
    have hsame : update B i [] = B := by
      rw [← hxs, update_eq_self]
    refine ⟨mem, (Returns.of_eq fun _ => rfl).succ hround, ?_⟩
    rw [hsame]
    exact h
  | cons x xs ih =>
    obtain rfl : x = elem := Option.some.inj helem
    have hl : both (bucketLists new.buckets new.bucketCnt N) (bucketLists old n B) (old + 16 * i) = some ([] ++ [x] ++ xs) := by
      rw [both_right (hnone N), bucketLists_at hi, hxs]
      rfl
    obtain ⟨next, hnext⟩ := exists_at (old + 16 * i) xs
    have hlist : IsList mem (old + 16 * i) ([] ++ x :: xs) := h.list _ _ hl
    -- out of the old bucket
    obtain ⟨mem₁, hremove, -, h₁, hfresh⟩ := h.remove hl hnext
    rw [update_both_right (hnone N), update_bucketLists hi] at h₁ hfresh
    -- and into the new one
    have hindex : bucketIndex hash new.bucketCnt x < new.bucketCnt := by
      rw [hcnt]
      exact bucketIndex_lt hash k x
    obtain ⟨mem₂, hpush, h₂⟩ := h₁.pushFront (both_left (bucketLists_at hindex)) hfresh
    rw [update_both_left, update_bucketLists hindex] at h₂
    obtain ⟨mem', hloop, h'⟩ := ih (update_self ..) hnext h₂
    refine ⟨mem', hloop.succ fun fuel => ?_, ?_⟩
    · rw [moveLoop, if_neg hlist.ne_end]
      rw [hlist.listNext_eq hnext, hremove]
      show (listPushFront mem₁ (findBucket hash new x) x).bind _ = _
      rw [show findBucket hash new x = new.buckets + 16 * bucketIndex hash new.bucketCnt x from rfl, hpush]
      rfl
    · rw [update_idem] at h'
      exact h'

/-- All elements are moved. -/
lemma moveBuckets_spec (hcnt : new.bucketCnt = 2 ^ k)
    (hdisjoint : new.buckets + 16 * new.bucketCnt ≤ old ∨ old + 16 * n ≤ new.buckets)
    (h : Holds mem (both (bucketLists new.buckets new.bucketCnt fun _ => []) (bucketLists old n B))) :
    ∃ mem', Returns (fun fuel => (List.range n).foldlM (moveBucket hash fuel new old) mem) mem' ∧
      Holds mem' (bucketLists new.buckets new.bucketCnt (spread (bucketIndex hash new.bucketCnt) n B)) := by
  have hround (i : ℕ) (hi : i < n) (mem : Words)
      (h : Holds mem (both (bucketLists new.buckets new.bucketCnt (spread (bucketIndex hash new.bucketCnt) i B))
        (bucketLists old n (emptied i B)))) :
      ∃ mem', Returns (fun fuel => moveBucket hash fuel new old mem i) mem' ∧
        Holds mem' (both (bucketLists new.buckets new.bucketCnt (spread (bucketIndex hash new.bucketCnt) (i + 1) B))
          (bucketLists old n (emptied (i + 1) B))) := by
    have hnone (N : ℕ → List ℕ) : bucketLists new.buckets new.bucketCnt N (old + 16 * i) = none :=
      bucketLists_eq_none (by omega)
    obtain ⟨q, hq⟩ := exists_at (old + 16 * i) (B i)
    have hlist : IsList mem (old + 16 * i) (B i) := by
      apply h.list
      rw [both_right (hnone _), bucketLists_at hi, emptied_self]
    obtain ⟨mem', hloop, h'⟩ := moveLoop_spec hash hcnt hdisjoint hi (emptied_self i B) hq h
    rw [← spread_succ, update_emptied] at h'
    refine ⟨mem', hloop.congr fun fuel => ?_, h'⟩
    rw [moveBucket, hlist.begin_eq hq]
  obtain ⟨mem', hloop, h'⟩ := Returns.foldlM_range hround h
  exact ⟨mem', hloop, h'.mono fun l xs hl => both_left hl⟩

/-- What `malloc` may return: a block that is not in use. -/
def GoodMalloc (L : Lists) (h : Hash) (malloc : ℕ → Option ℕ) : Prop :=
  ∀ size a, malloc size = some a →
    Unused L a size ∧ a + size ≤ 2 ^ 32 ∧ (a + size ≤ h.buckets ∨ h.buckets + 16 * h.bucketCnt ≤ a)

/-- `rehash` changes nothing, or moves the elements. -/
lemma rehash_spec {h : Hash} (hcnt : h.elemCnt < 2 ^ 29)
    (hmalloc : GoodMalloc (bucketLists h.buckets h.bucketCnt B) h malloc)
    (hh : Holds mem (bucketLists h.buckets h.bucketCnt B)) :
    ∃ mem' h', Returns (fun fuel => rehash hash malloc fuel mem h) (mem', h') ∧
      (mem' = mem ∧ h' = h ∨
        h'.elemCnt = h.elemCnt ∧ (∃ k, 2 ≤ k ∧ h'.bucketCnt = 2 ^ k) ∧ h'.buckets + 16 * h'.bucketCnt ≤ 2 ^ 32 ∧
          Holds mem' (bucketLists h'.buckets h'.bucketCnt (spread (bucketIndex hash h'.bucketCnt) h.bucketCnt B))) := by
  obtain ⟨k, hk, hle, hnew⟩ := newBucketCnt_spec h.elemCnt
  by_cases hsame : 2 ^ k = h.bucketCnt
  · refine ⟨mem, h, hnew.bind (Returns.of_eq fun fuel => ?_), Or.inl ⟨rfl, rfl⟩⟩
    rw [if_pos hsame]
    rfl
  · have hsize : 16 * 2 ^ k % 2 ^ 32 = 16 * 2 ^ k := by
      apply Nat.mod_eq_of_lt
      omega
    cases ha : malloc (16 * 2 ^ k) with
    | none =>
      refine ⟨mem, h, hnew.bind (Returns.of_eq fun fuel => ?_), Or.inl ⟨rfl, rfl⟩⟩
      rw [if_neg hsame, hsize, ha]
      rfl
    | some a =>
      obtain ⟨hunused, hbound, hdisjoint⟩ := hmalloc _ a ha
      obtain ⟨mem', hmove, hh'⟩ := @moveBuckets_spec hash _ ⟨h.elemCnt, 2 ^ k, a⟩ _ _ k B rfl hdisjoint
        (initBuckets_spec hunused hh)
      have hresult := hmove.map (g := fun mem => (mem, (⟨h.elemCnt, 2 ^ k, a⟩ : Hash)))
      refine ⟨mem', ⟨h.elemCnt, 2 ^ k, a⟩, hnew.bind (hresult.congr fun fuel => ?_), Or.inr ⟨rfl, ⟨k, hk, rfl⟩, hbound, hh'⟩⟩
      rw [if_neg hsame, hsize, ha]
      exact (Option.map_eq_bind ..).symm

end Move

end OsLabs.LibKernel
