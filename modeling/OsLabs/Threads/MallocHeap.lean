import Mathlib.Tactic.FinCases
import OsLabs.Threads.Malloc

/-!
# Memory that holds a heap

`Encodes` connects memory with a heap of size classes: the free lists are in memory, and every arena has its header. The
words of free-list nodes and of headers are all different, so that a write to one of them leaves the others alone. The
number of free blocks in a header is a parameter: the code changes it after the list.
-/

namespace OsLabs.Threads

open Lib LibKernel Function

/-- The sizes of the allocator. -/
def sizes : SlabSizes (Fin 7) where
  page := 4096
  header := 12
  block k := (desc k).blockSize
  count k := (desc k).blocksPerArena
  header_pos := by decide
  header_lt := by decide
  block_pos := by decide
  fits := by decide

/-- A block has room for a `struct list_elem`. -/
lemma blockSize_ge (k : Fin 7) : 16 ≤ (desc k).blockSize := by
  revert k
  decide

lemma blocksPerArena_bounds (k : Fin 7) : 0 < (desc k).blocksPerArena ∧ (desc k).blocksPerArena < 2 ^ 32 - 1 := by
  revert k
  decide

variable {D : DescsAddr} {mem mem' : Words} {h g : Heap (Fin 7)} {cnt : ℕ → ℕ}

lemma descOf_descAddr (k : Fin 7) : descOf D (descAddr D k) = some k := by
  have hfind : ∀ k : Fin 7, (List.finRange 7).find? (fun j : Fin 7 => decide (48 * (j : ℕ) = 48 * k)) = some k := by decide
  unfold descOf descAddr
  simp only [Nat.add_left_cancel_iff]
  exact hfind k

/-! ## Nodes -/

variable (D h) in
/-- What can be a node of the free list of a class: its sentinels, and the blocks of its arenas. -/
def IsNode (k : Fin 7) (x : ℕ) : Prop :=
  (∃ c, (c = 0 ∨ c = 8) ∧ x = freeList D k + c) ∨
    ∃ p i, h.Has sizes (.block p k i) ∧ Piece.start sizes (.block p k i) = x

variable (h) in
/-- The arenas are in the kernel pool. -/
def InPool : Prop :=
  ∀ p A, h.arena p = some A → 0xc0100 ≤ p ∧ p + A.pages < 2 ^ 20

/-- The sentinels are in `descs`. -/
lemma freeList_bounds (D : DescsAddr) (k : Fin 7) :
    D.addr + 8 ≤ freeList D k ∧ freeList D k + 16 ≤ D.addr + 480 := by
  unfold freeList descAddr
  omega

/-- The parts of arenas are in the pool. -/
lemma InPool.start_ge (hpool : InPool h) (hwf : h.Wf sizes) {x : Piece (Fin 7)} (hx : h.Has sizes x) :
    0xc0100000 ≤ x.start sizes := by
  obtain ⟨A, hA, hlo, -, -⟩ := hwf.inside hx
  obtain ⟨hp, -⟩ := hpool _ A hA
  have hlo : x.page * 4096 ≤ x.start sizes := hlo
  omega

lemma block_stop (p : ℕ) (k : Fin 7) (i : ℕ) :
    Piece.stop sizes (.block p k i) = Piece.start sizes (.block p k i) + (desc k).blockSize := by
  show _ + (i + 1) * (desc k).blockSize = _ + i * (desc k).blockSize + (desc k).blockSize
  rw [Nat.add_mul]
  omega

variable {k : Fin 7} {x p : ℕ} {A : Arena (Fin 7)}

/-- Nodes are different or do not overlap. -/
lemma IsNode.apart (hwf : h.Wf sizes) (hpool : InPool h) {j : Fin 7} {y : ℕ} (hx : IsNode D h j x)
    (hy : IsNode D h k y) (hne : x ≠ y) : Apart x y := by
  have hbelow := D.below
  have hj := freeList_bounds D j
  have hk := freeList_bounds D k
  unfold Apart
  rcases hx with ⟨c, hc, rfl⟩ | ⟨p, i, hhas, rfl⟩
  · rcases hy with ⟨d, hd, rfl⟩ | ⟨q, n, hhas', rfl⟩
    · unfold freeList descAddr at hne ⊢
      omega
    · have := hpool.start_ge hwf hhas'
      omega
  · rcases hy with ⟨d, hd, rfl⟩ | ⟨q, n, hhas', rfl⟩
    · have := hpool.start_ge hwf hhas
      omega
    · have hdisj := hwf.disjoint hhas hhas' fun heq => hne (by rw [heq])
      rw [block_stop, block_stop] at hdisj
      have := blockSize_ge j
      have := blockSize_ge k
      omega

/-- A node is one of a single list. -/
lemma IsNode.unique (hwf : h.Wf sizes) (hpool : InPool h) {j : Fin 7} (hx : IsNode D h j x)
    (hy : IsNode D h k x) : j = k := by
  have hbelow := D.below
  have hj := freeList_bounds D j
  have hk := freeList_bounds D k
  rcases hx with ⟨c, hc, rfl⟩ | ⟨p, i, hhas, hx⟩
  · rcases hy with ⟨d, hd, heq⟩ | ⟨q, n, hhas', heq⟩
    · unfold freeList descAddr at heq
      omega
    · have := hpool.start_ge hwf hhas'
      omega
  · rcases hy with ⟨d, hd, heq⟩ | ⟨q, n, hhas', hy⟩
    · have := hpool.start_ge hwf hhas
      omega
    · exact (Piece.block.inj (hwf.start_inj hhas hhas' (hx.trans hy.symm))).2.1

/-- Blocks do not overlap headers. -/
lemma apart_header (hwf : h.Wf sizes) {x : Piece (Fin 7)} (hx : h.Has sizes x) (hblock : x.IsBlock)
    (hA : h.arena p = some A) : x.stop sizes ≤ p * 4096 ∨ p * 4096 + 12 ≤ x.start sizes := by
  have hheader : h.Has sizes (.header p) := ⟨A, hA⟩
  exact hwf.disjoint hx hheader (by rintro rfl; exact hblock)

/-- A block is in its page. -/
lemma block_within {i : ℕ} (hhas : h.Has sizes (.block p k i)) :
    p * 4096 + 12 ≤ Piece.start sizes (.block p k i) ∧ Piece.start sizes (.block p k i) + 16 ≤ (p + 1) * 4096 := by
  have hfits : 12 + (i + 1) * (desc k).blockSize ≤ 4096 := Heap.block_fits hhas.2
  have hsize := blockSize_ge k
  have hstart : Piece.start sizes (.block p k i) = p * 4096 + 12 + i * (desc k).blockSize := rfl
  rw [Nat.add_mul] at hfits
  omega

/-- Nodes do not overlap headers. -/
lemma IsNode.ne_header (hwf : h.Wf sizes) (hpool : InPool h) (hx : IsNode D h k x) (hA : h.arena p = some A) :
    x + 8 ≤ p * 4096 ∨ p * 4096 + 12 ≤ x := by
  have hbelow := D.below
  have hheader : h.Has sizes (.header p) := ⟨A, hA⟩
  have hge : 0xc0100000 ≤ p * 4096 := hpool.start_ge hwf hheader
  have hk := freeList_bounds D k
  rcases hx with ⟨c, hc, rfl⟩ | ⟨q, i, hhas, rfl⟩
  · omega
  · have hdisj := apart_header hwf hhas trivial hA
    rw [block_stop] at hdisj
    have := blockSize_ge k
    omega

/-- The list of a class has nodes. -/
lemma isNode_of_mem (k : Fin 7) {l : List ℕ}
    (hl : ∀ b ∈ l, ∃ p i, h.Has sizes (.block p k i) ∧ Piece.start sizes (.block p k i) = b)
    (hx : x ∈ nodes (freeList D k) l) : IsNode D h k x := by
  rcases mem_nodes.mp hx with rfl | hmem | rfl
  · exact Or.inl ⟨0, Or.inl rfl, rfl⟩
  · exact Or.inr (hl x hmem)
  · exact Or.inl ⟨8, Or.inr rfl, rfl⟩

/-! ## Memory -/

variable (D) in
/-- `a->desc`. -/
def descWord : Arena (Fin 7) → ℕ
  | .small k => descAddr D k
  | .big _ => 0

variable (D mem h cnt) in
/-- Memory holds the free lists and the headers of the arenas, with `free_cnt` from `cnt`. -/
structure Encodes : Prop where
  lists : ∀ k, IsList mem (freeList D k) (h.free k)
  header : ∀ p A, h.arena p = some A →
    mem (p * 4096) = arenaMagic ∧ mem (p * 4096 + 4) = descWord D A ∧ mem (p * 4096 + 8) = cnt p

section Encodes

variable (he : Encodes D mem h cnt) {cnt' : ℕ → ℕ}
include he

/-- The words of nodes and headers stay. -/
lemma Encodes.congr (hwf : h.Wf sizes)
    (hnode : ∀ k x, IsNode D h k x → x ∈ nodes (freeList D k) (h.free k) → mem' x = mem x ∧ mem' (x + 4) = mem (x + 4))
    (hheader : ∀ p A, h.arena p = some A → ∀ i < 12, mem' (p * 4096 + i) = mem (p * 4096 + i)) :
    Encodes D mem' h cnt where
  lists k := by
    refine (he.lists k).congr fun y hy => ?_
    unfold Outside at hy
    push Not at hy
    obtain ⟨x, hx, hword⟩ := hy
    obtain ⟨hprev, hnext⟩ := hnode k x (isNode_of_mem k (hwf.free k) hx) hx
    by_cases hyx : y = x
    · rw [hyx]
      exact hprev
    · rw [hword hyx]
      exact hnext
  header p A hA := by
    have hsame := hheader p A hA
    have h0 := hsame 0 (by omega)
    rw [Nat.add_zero] at h0
    rw [h0, hsame 4 (by omega), hsame 8 (by omega)]
    exact he.header p A hA

/-- The list of a class changes. -/
lemma Encodes.setList (hwf : h.Wf sizes) (hpool : InPool h) {l m : List ℕ}
    (harena : g.arena = h.arena) (hfree : g.free = update h.free k l)
    (hlist : IsList mem' (freeList D k) l)
    (hm : ∀ b ∈ m, ∃ p i, h.Has sizes (.block p k i) ∧ Piece.start sizes (.block p k i) = b)
    (hframe : ∀ y, Outside (nodes (freeList D k) m) y → mem' y = mem y) : Encodes D mem' g cnt where
  lists j := by
    rw [hfree]
    refine Heap.forall_update (P := fun j l => IsList mem' (freeList D j) l) hlist (fun j hj => ?_) j
    refine (he.lists j).congr fun y hy => hframe y fun z hz => ?_
    unfold Outside at hy
    push Not at hy
    obtain ⟨x, hx, hword⟩ := hy
    -- the nodes of another list are other nodes
    have hxnode := isNode_of_mem j (hwf.free j) hx
    have hznode := isNode_of_mem k hm hz
    have hne : x ≠ z := by
      rintro rfl
      exact hj (hxnode.unique hwf hpool hznode)
    have hapart := hxnode.apart hwf hpool hznode hne
    unfold Apart at hapart
    by_cases hyx : y = x
    · omega
    · omega
  header p A hA := by
    rw [harena] at hA
    have hsame (i : ℕ) (hi : i < 12) : mem' (p * 4096 + i) = mem (p * 4096 + i) := by
      refine hframe _ fun z hz => ?_
      have := (isNode_of_mem k hm hz).ne_header hwf hpool hA
      omega
    have h0 := hsame 0 (by omega)
    rw [Nat.add_zero] at h0
    rw [h0, hsame 4 (by omega), hsame 8 (by omega)]
    exact he.header p A hA

/-- A word `free_cnt` changes. -/
lemma Encodes.setCnt (hwf : h.Wf sizes) (hpool : InPool h)
    (hp : h.arena p = some A) (hcnt' : ∀ q, q ≠ p → cnt' q = cnt q) :
    Encodes D (update mem (p * 4096 + 8) (cnt' p)) h cnt' where
  lists k := by
    refine (he.lists k).congr fun y hy => ?_
    refine update_of_ne (fun heq => hy fun x hx => ?_) ..
    have := (isNode_of_mem k (hwf.free k) hx).ne_header hwf hpool hp
    omega
  header q B hB := by
    rw [update_of_ne (by omega), update_of_ne (by omega)]
    obtain ⟨hmagic, hdesc, hcnt⟩ := he.header q B hB
    refine ⟨hmagic, hdesc, ?_⟩
    by_cases hq : q = p
    · rw [hq, update_self]
    · rw [update_of_ne (by omega), hcnt' q hq]
      exact hcnt

lemma Encodes.congr_cnt
    (hcnt : ∀ p A, h.arena p = some A → cnt' p = cnt p) : Encodes D mem h cnt' where
  lists := he.lists
  header p A hA := by
    rw [hcnt p A hA]
    exact he.header p A hA

omit he in
/-- The words of nodes of the heap are outside of fresh pages. -/
lemma IsNode.ne_fresh (hwf : h.Wf sizes) (hx : IsNode D h k x) {pages : ℕ} (hfresh : h.Fresh p pages)
    (hp : 0xc0100 ≤ p) : x + 8 ≤ p * 4096 ∨ (p + pages) * 4096 ≤ x := by
  have hbelow := D.below
  have hk := freeList_bounds D k
  rcases hx with ⟨c, hc, rfl⟩ | ⟨q, i, hhas, rfl⟩
  · omega
  · have hdisj := hwf.fresh_disjoint hfresh hhas
    rw [block_stop] at hdisj
    have hdisj : _ ≤ p * 4096 ∨ (p + pages) * 4096 ≤ _ := hdisj
    have := blockSize_ge k
    omega

/-- A new arena has a header. -/
lemma Encodes.addArena (hwf : h.Wf sizes) (hfresh : h.Fresh p A.pages)
    (hpos : 0 < A.pages) (hp : 0xc0100 ≤ p) (harena : g.arena = update h.arena p (some A))
    (hfree : g.free = h.free) (v : ℕ) :
    Encodes D (writeHeader mem (p * 4096) (descWord D A) v) g (update cnt p v) := by
  have hframe (y : ℕ) (hy : y < p * 4096 ∨ p * 4096 + 12 ≤ y) :
      writeHeader mem (p * 4096) (descWord D A) v y = mem y := by
    unfold writeHeader
    rw [update_of_ne (by omega), update_of_ne (by omega), update_of_ne (by omega)]
  constructor
  · intro k
    rw [hfree]
    refine (he.lists k).congr fun y hy => hframe y ?_
    by_contra hin
    refine hy fun x hx => ?_
    have := (isNode_of_mem k (hwf.free k) hx).ne_fresh hwf hfresh hp
    omega
  · intro q B hB
    rw [harena] at hB
    by_cases hq : q = p
    · subst hq
      rw [update_self] at hB ⊢
      obtain rfl := Option.some.inj hB
      unfold writeHeader
      refine ⟨?_, ?_, update_self ..⟩
      · rw [update_of_ne (by omega), update_of_ne (by omega), update_self]
      · rw [update_of_ne (by omega), update_self]
    · rw [update_of_ne hq] at hB ⊢
      rw [hframe _ (by omega), hframe _ (by omega), hframe _ (by omega)]
      exact he.header q B hB

/-- The pages of an arena without nodes are filled and given back. -/
lemma Encodes.dropArena (hwf : h.Wf sizes) (hp : h.arena p = some A)
    (hpool : InPool h) (hnone : ∀ k, ∀ b ∈ h.free k, b / 4096 < p ∨ p + A.pages ≤ b / 4096)
    (harena : g.arena = update h.arena p none) (hfree : g.free = h.free)
    (hcnt' : ∀ q, q ≠ p → cnt' q = cnt q) : Encodes D (fill mem (p * 4096) (4096 * A.pages)) g cnt' := by
  have hbelow := D.below
  have hge := (hpool p A hp).1
  have hframe (y : ℕ) (hy : y / 4096 < p ∨ p + A.pages ≤ y / 4096) :
      fill mem (p * 4096) (4096 * A.pages) y = mem y := by
    unfold fill
    rw [if_neg (by omega)]
  constructor
  · intro k
    rw [hfree]
    have hk := freeList_bounds D k
    refine (he.lists k).congr fun y hy => hframe y ?_
    by_contra hin
    refine hy fun x hx => ?_
    rcases mem_nodes.mp hx with rfl | hmem | rfl
    · omega
    · -- the two words of a block are in its page
      have hpage := hnone k x hmem
      obtain ⟨q, i, hhas, rfl⟩ := hwf.free k x hmem
      have hwithin := block_within hhas
      omega
    · omega
  · intro q B hB
    rw [harena] at hB
    have hq : q ≠ p := by
      rintro rfl
      rw [update_self] at hB
      cases hB
    rw [update_of_ne hq] at hB
    have hapart := hwf.apart q B hB p A hp hq
    rw [hframe _ (by omega), hframe _ (by omega), hframe _ (by omega), hcnt' q hq]
    exact he.header q B hB

omit he in
/-- A live block is no node. -/
lemma live_not_mem_free {x : Piece (Fin 7)} (hinv : h.Inv sizes) (hx : h.Has sizes x) (hblock : x.IsBlock)
    (hlive : x.start sizes ∈ h.live) : x.start sizes ∉ h.free k := by
  intro hmem
  obtain ⟨p, i, hhas, heq⟩ := hinv.free k _ hmem
  obtain rfl := hinv.start_inj hhas hx heq
  exact (hinv.split p k i hhas).mp hlive hmem

omit he in
/-- A node does not overlap a live block. -/
lemma node_apart_live (hinv : h.Inv sizes) (hpool : InPool h) {x : Piece (Fin 7)} (hx : h.Has sizes x)
    (hblock : x.IsBlock) (hlive : x.start sizes ∈ h.live) {y : ℕ} (hy : y ∈ nodes (freeList D k) (h.free k)) :
    y + 8 ≤ x.start sizes ∨ x.stop sizes ≤ y := by
  have hbelow := D.below
  have hk := freeList_bounds D k
  have hge := hpool.start_ge hinv.toWf hx
  rcases mem_nodes.mp hy with rfl | hmem | rfl
  · omega
  · have hne := live_not_mem_free (k := k) hinv hx hblock hlive
    obtain ⟨p, i, hhas, rfl⟩ := hinv.free k y hmem
    have hdisj := hinv.disjoint hhas hx fun heq => hne (heq ▸ hmem)
    rw [block_stop] at hdisj
    have := blockSize_ge k
    omega
  · omega

/-- What is written into a live block changes neither the lists nor the headers. -/
lemma Encodes.changeBlock (hinv : h.Inv sizes) (hpool : InPool h) {x : Piece (Fin 7)}
    (hx : h.Has sizes x) (hblock : x.IsBlock) (hlive : x.start sizes ∈ h.live)
    (hframe : ∀ y, y < x.start sizes ∨ x.stop sizes ≤ y → mem' y = mem y) : Encodes D mem' h cnt := by
  refine he.congr hinv.toWf (fun k y _ hy => ?_) fun p A hA i hi => ?_
  · have := node_apart_live hinv hpool hx hblock hlive hy
    exact ⟨hframe y (by omega), hframe (y + 4) (by omega)⟩
  · have hdisj := apart_header hinv.toWf hx hblock hA
    exact hframe _ (by omega)

end Encodes

/-! ## Reading headers -/

section Read

variable (he : Encodes D mem h cnt) (hpool : InPool h)

variable {p pages i : ℕ} {k : Fin 7}

include he in
lemma Encodes.arenaDesc_small (hp : h.arena p = some (.small k)) :
    arenaDesc D mem (p * 4096) = .ok (some k) := by
  have hdesc : mem (p * 4096 + 4) = descAddr D k := (he.header p _ hp).2.1
  have hpos := D.pos
  unfold arenaDesc
  rw [hdesc, if_neg (by unfold descAddr; omega), descOf_descAddr]

include he in
lemma Encodes.arenaDesc_big (hp : h.arena p = some (.big pages)) : arenaDesc D mem (p * 4096) = .ok none := by
  have hdesc : mem (p * 4096 + 4) = 0 := (he.header p _ hp).2.1
  unfold arenaDesc
  rw [if_pos hdesc]

/-- Where a block is in its page. -/
lemma block_offset (hhas : h.Has sizes (.block p k i)) :
    Piece.start sizes (.block p k i) / 4096 = p ∧
      Piece.start sizes (.block p k i) % 4096 = 12 + i * (desc k).blockSize := by
  have hwithin := block_within hhas
  have hstart : Piece.start sizes (.block p k i) = p * 4096 + 12 + i * (desc k).blockSize := rfl
  omega

include he hpool in
lemma Encodes.blockToArena_block (hhas : h.Has sizes (.block p k i)) :
    blockToArena D mem (Piece.start sizes (.block p k i)) = .ok (p * 4096) := by
  obtain ⟨hdiv, hmod⟩ := block_offset hhas
  have hge := (hpool p _ hhas.1).1
  have haligned : sub32 (12 + i * (desc k).blockSize) 12 % (desc k).blockSize = 0 := by
    rw [sub32_eq (by omega) (by omega), Nat.add_sub_cancel_left]
    exact Nat.mul_mod_left ..
  unfold blockToArena
  rw [hdiv, hmod]
  rw [if_neg (by rw [(he.header p _ hhas.1).1]; simp; omega), he.arenaDesc_small hhas.1, except_ok_bind]
  dsimp only
  rw [if_pos haligned]

include he hpool in
lemma Encodes.blockToArena_big (hp : h.arena p = some (.big pages)) :
    blockToArena D mem (p * 4096 + 12) = .ok (p * 4096) := by
  have hge := (hpool p _ hp).1
  have hdiv : (p * 4096 + 12) / 4096 = p := by omega
  unfold blockToArena
  rw [hdiv]
  rw [if_neg (by rw [(he.header p _ hp).1]; simp; omega), he.arenaDesc_big hp]
  exact if_pos (by omega)

include he hpool in
lemma Encodes.arenaToBlock (hhas : h.Has sizes (.block p k i)) :
    arenaToBlock D mem (p * 4096) i = .ok (Piece.start sizes (.block p k i)) := by
  have hge := (hpool p _ hhas.1).1
  unfold OsLabs.Threads.arenaToBlock
  rw [if_neg (by rw [(he.header p _ hhas.1).1]; simp; omega), he.arenaDesc_small hhas.1]
  exact if_pos hhas.2

include he hpool in
/-- `block_size` is the number of bytes up to the end of the block. -/
lemma Encodes.blockSize_block (hhas : h.Has sizes (.block p k i)) :
    blockSize D mem (Piece.start sizes (.block p k i)) = .ok (desc k).blockSize := by
  unfold blockSize
  rw [he.blockToArena_block hpool hhas, except_ok_bind, he.arenaDesc_small hhas.1]
  rfl

include he hpool in
lemma Encodes.blockSize_big (hp : h.arena p = some (.big pages)) (hcnt : cnt p = pages) (hpos : 0 < pages) :
    blockSize D mem (p * 4096 + 12) = .ok (4096 * pages - 12) := by
  obtain ⟨hge, hlt⟩ := hpool p _ hp
  have hlt : p + pages < 2 ^ 20 := hlt
  unfold blockSize
  rw [he.blockToArena_big hpool hp, except_ok_bind, he.arenaDesc_big hp]
  have hword : sub32 (4096 * mem (p * 4096 + 8)) ((p * 4096 + 12) % 4096) = 4096 * pages - 12 := by
    rw [(he.header p _ hp).2.2, sub32_eq (by omega) (by omega)]
    omega
  exact congrArg Except.ok hword

end Read

end OsLabs.Threads
